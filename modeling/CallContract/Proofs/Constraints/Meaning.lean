import CallContract.Check.Evaluation
import CallContract.Proofs.Constraints.Compiled
import CallContract.Proofs.Values.Order
import Mathlib.Data.List.Chain

/-!
# What constraints mean

The meaning of a constraint is a set of values, given by recursion on the constraint and without
its compiled checks: `Admits` for constraints, `Holds` for the items of refinements and for
checks. Growth is a relation between all pairs of elements here, where the evaluation compares
neighbours only.

**Results.**
* `increasing?_eq_some_true`: neighbours in order stand for all pairs in order.
* `evaluate_eq_pass`: a check passes on exactly the values of which it holds.
* `checks_pass_iff_admits`: the checks that a constraint compiles to all pass on exactly the
  values that it admits.
-/
namespace CallContract

/-! ## Types and signs -/

namespace Value

/-- The values of a type. A truth value is an integer, too, and everything is an object. -/
inductive IsOf : Value → ValueType → Prop where
  | none : IsOf .none .none
  | bool (b : Bool) : IsOf (.bool b) .bool
  | boolAsInt (b : Bool) : IsOf (.bool b) .int
  | int (n : Int64) : IsOf (.int n) .int
  | float (x : Binary64) : IsOf (.float x) .float
  | str (s : String) : IsOf (.str s) .str
  | list (items : List Value) : IsOf (.list items) .list
  | tuple (items : List Value) : IsOf (.tuple items) .tuple
  | dict (entries : List (Value × Value)) : IsOf (.dict entries) .dict
  | object (v : Value) : IsOf v .object

theorem isInstance_iff_isOf {v : Value} {t : ValueType} : v.isInstance t = true ↔ v.IsOf t := by
  refine ⟨?_, ?_⟩
  · intro h
    cases v <;> cases t <;> first | constructor | cases h
  · intro h
    cases h with
    | object => exact isInstance_object v
    | _ => rfl

/-- The numbers above zero; infinity is one and a NaN is not. -/
def IsPositive : Value → Prop
  | .bool b => b = true
  | .int n => 0 < n.toInt
  | .float x => x.isNaN = false ∧ x.isNegative = false ∧ 0 < x.magnitude
  | _ => False

theorem compare?_ofInt_zero {n : Int} :
    (Number.ofInt n).compare? (.ofInt 0) = some .gt ↔ 0 < n := by
  rw [Number.compare?_ofInt, Option.some.injEq, Int.compare_eq_gt]

theorem magnitude_pos_of_not_isFinite {x : Binary64} (h : x.isFinite = false) :
    0 < x.magnitude := by
  rw [Nat.pos_iff_ne_zero, Ne, Binary64.magnitude_eq_zero_iff]
  intro h'
  obtain ⟨he, -⟩ := h'
  simp [Binary64.isFinite, he] at h

theorem compare?_ofBinary64_zero {x : Binary64} :
    (Number.ofBinary64 x).compare? (.ofInt 0) = some .gt ↔
      x.isNaN = false ∧ x.isNegative = false ∧ 0 < x.magnitude := by
  have hz : Number.ofInt 0 = .units 0 := by rw [Number.ofInt, Int.zero_mul]
  rw [Number.ofBinary64, hz]
  cases hn : x.isNaN with
  | true => simp [Number.compare?]
  | false =>
    cases hf : x.isFinite with
    | true =>
      cases hs : x.isNegative with
      | true => simp [Number.compare?, Int.compare_eq_gt]
      | false => simp [Number.compare?, Int.compare_eq_gt]
    | false =>
      have := magnitude_pos_of_not_isFinite hf
      cases hs : x.isNegative with
      | true => simp [Number.compare?]
      | false => simpa [Number.compare?] using this

theorem gt?_zero_iff_isPositive {v : Value} : v.gt? (.int 0) = some true ↔ v.IsPositive := by
  have hz : (Value.int 0).number? = some (.ofInt 0) := by simp [number?]
  rw [gt?_eq_some_true_iff]
  refine ⟨?_, ?_⟩
  · intro h
    cases h with
    | number hv hw h =>
      cases hz.symm.trans hw
      cases v with
      | bool b => cases hv; cases b <;> simp_all [compare?_ofInt_zero, IsPositive]
      | int n => cases hv; exact compare?_ofInt_zero.1 h
      | float x => cases hv; exact compare?_ofBinary64_zero.1 h
      | _ => cases hv
  · intro h
    cases v with
    | bool b => cases h; exact .number rfl hz (compare?_ofInt_zero.2 (by decide))
    | int n => exact .number rfl hz (compare?_ofInt_zero.2 h)
    | float x => exact .number rfl hz (compare?_ofBinary64_zero.2 h)
    | _ => exact h.elim

end Value

/-! ## Growth -/

namespace Check

/-- Whether the second of two elements is greater than the first. -/
def Rises (before after : Value) : Prop := after.gt? before = some true

instance : IsTrans Value Rises where
  trans _ _ _ hab hbc := Value.gt?_eq_some_true_iff.2 <|
    Value.exceeds_trans (Value.gt?_eq_some_true_iff.1 hbc) (Value.gt?_eq_some_true_iff.1 hab)

theorem increasing?_eq_some_true_iff_isChain {items : List Value} :
    increasing? items = some true ↔ items.IsChain Rises := by
  fun_induction increasing? items with
  | case1 v w rest h ih => rw [ih, List.isChain_cons_cons]; exact (and_iff_right h).symm
  | case2 v w rest h =>
    rw [List.isChain_cons_cons]
    exact ⟨fun h' => absurd h' h, fun h' => absurd h'.1 h⟩
  | case3 items h =>
    match items with
    | [] | [_] => simp
    | v :: w :: rest => exact absurd rfl (h v w rest)

theorem increasing?_eq_some_true {items : List Value} :
    increasing? items = some true ↔ items.Pairwise Rises := by
  rw [increasing?_eq_some_true_iff_isChain, List.isChain_iff_pairwise]

/-! ## Checks -/

/-- The values of which a check holds. -/
def Holds : Check → Value → Prop
  | .typeEquals declared, v => v.IsOf declared
  | .isSequenceShaped _, v => ∃ items, v = .list items
  | .nonEmpty, v => ∃ items, v.elements? = some items ∧ items ≠ []
  | .monotonicIncreasing, v =>
    ∃ items, v.elements? = some items ∧
      (items.length ≤ 1 ∨ (v.isIndexable = true ∧ items.Pairwise Rises))
  | .positive, v => v.IsPositive
  | .eachSatisfies inner, v => ∃ items, v.elements? = some items ∧ ∀ w ∈ items, inner.Holds w

theorem ofBool_eq_pass {b : Bool} : ofBool b = .pass ↔ b = true := by cases b <;> simp [ofBool]

theorem evaluateIncreasing_eq_pass {v : Value} :
    evaluateIncreasing v = .ok .pass ↔ monotonicIncreasing.Holds v := by
  rw [evaluateIncreasing, Value.length?_eq, Holds]
  cases v.elements? with
  | none => simp
  | some items =>
    simp only [Option.map_some, Option.some.injEq, exists_eq_left']
    by_cases hl : items.length ≤ 1
    · simp [hl]
    · by_cases hi : v.isIndexable = true
      · simp only [hl, hi, if_false, if_true, false_or, true_and, ← increasing?_eq_some_true]
        cases increasing? items with
        | none => simp
        | some passed => simp [ofBool_eq_pass]
      · simp [hl, hi]

theorem evaluate_eq_pass {c : Check} {v : Value} : c.evaluate v = .ok .pass ↔ c.Holds v := by
  induction c generalizing v with
  | typeEquals declared =>
    rw [evaluate, Except.ok.injEq, ofBool_eq_pass]
    exact Value.isInstance_iff_isOf
  | isSequenceShaped declared =>
    rw [evaluate, Except.ok.injEq, ofBool_eq_pass]
    cases v <;> simp [Value.sequence?, Holds]
  | nonEmpty =>
    rw [evaluate, Value.length?_eq, Holds]
    cases v.elements? with
    | none => simp
    | some items => simp [ofBool_eq_pass, List.length_pos_iff]
  | monotonicIncreasing => exact evaluateIncreasing_eq_pass
  | positive =>
    rw [evaluate, Holds, ← Value.gt?_zero_iff_isPositive]
    cases v.gt? (.int 0) with
    | none => simp
    | some passed => simp [ofBool_eq_pass]
  | eachSatisfies inner ih =>
    rw [evaluate_eachSatisfies_eq_pass, Holds]
    simp only [ih]

end Check

/-! ## Constraints -/

mutual

/-- The values of which an item of a refinement holds; a kind stands for its check. -/
def Refinement.Holds : Refinement → Value → Prop
  | .check c, v => c.Holds v
  | .kind k, v => ∃ c, k.check? = some c ∧ c.Holds v
  | .group items, v => Refinement.AllHold items v

def Refinement.AllHold : List Refinement → Value → Prop
  | [], _ => True
  | item :: items, v => item.Holds v ∧ Refinement.AllHold items v

end

/-- The values that a constraint admits. -/
def Constraint.Admits : Constraint → Value → Prop
  | .plain t, v => v.IsOf t
  | .refined base items, v => base.Admits v ∧ Refinement.AllHold items v
  | .sequenceOf element, v => ∃ items, v = .list items ∧ ∀ w ∈ items, element.Admits w
  | .other _, _ => False

mutual

theorem Refinement.forall_checks_holds {item : Refinement} {cs : List Check}
    (h : item.checks = .ok cs) (v : Value) : (∀ c ∈ cs, c.Holds v) ↔ item.Holds v := by
  cases item with
  | check c =>
    rw [(checks_check_eq_ok.1 h).2, Refinement.Holds]
    simp
  | kind k =>
    obtain ⟨c, hk, rfl⟩ := checks_kind_eq_ok.1 h
    simp [Refinement.Holds, hk]
  | group items =>
    rw [Refinement.Holds]
    exact forall_checksOfAll_holds (checks_group_eq_ok.1 h).2 v

theorem Refinement.forall_checksOfAll_holds {items : List Refinement} {cs : List Check}
    (h : Refinement.checksOfAll items = .ok cs) (v : Value) :
    (∀ c ∈ cs, c.Holds v) ↔ Refinement.AllHold items v := by
  cases items with
  | nil => cases h; simp [Refinement.AllHold]
  | cons item items =>
    obtain ⟨ds, es, hd, he, rfl⟩ := checksOfAll_cons_eq_ok.1 h
    rw [List.forall_mem_append, forall_checks_holds hd, forall_checksOfAll_holds he,
      Refinement.AllHold]

end

theorem Constraint.forall_checks_holds {a : Constraint} {cs : List Check}
    (h : a.checks = .ok cs) (v : Value) : (∀ c ∈ cs, c.Holds v) ↔ a.Admits v := by
  induction a generalizing cs v with
  | plain t => cases h; simp [Check.Holds, Admits]
  | refined base items ih =>
    obtain ⟨-, ds, es, hd, he, rfl⟩ := checks_refined_eq_ok.1 h
    rw [List.forall_mem_append, ih hd, Refinement.forall_checksOfAll_holds he, Admits]
  | sequenceOf element ih =>
    obtain ⟨c, hc, rfl⟩ := checks_sequenceOf_eq_ok.1 h
    have element_iff (w : Value) : c.Holds w ↔ element.Admits w := by
      rw [← ih hc w, List.forall_mem_singleton]
    rw [Admits]
    refine ⟨?_, ?_⟩
    · intro h
      obtain ⟨items, rfl⟩ := h (.isSequenceShaped (.sequenceOf element.declaredType)) (by simp)
      obtain ⟨others, he, hw⟩ := h (.eachSatisfies c) (by simp)
      cases he
      exact ⟨items, rfl, fun w hi => (element_iff w).1 (hw w hi)⟩
    · intro h'
      obtain ⟨items, rfl, hw⟩ := h'
      simp only [List.forall_mem_cons, List.not_mem_nil, false_implies, implies_true, and_true]
      exact ⟨⟨items, rfl⟩, items, rfl, fun w hi => (element_iff w).2 (hw w hi)⟩
  | other text => cases h

theorem Constraint.checks_pass_iff_admits {a : Constraint} {cs : List Check}
    (h : a.checks = .ok cs) (v : Value) :
    (∀ c ∈ cs, c.evaluate v = .ok .pass) ↔ a.Admits v := by
  simp only [Check.evaluate_eq_pass]
  exact Constraint.forall_checks_holds h v

end CallContract
