import CallContract.Proofs.Constraints.Meaning

/-!
# Checks that apply to the shapes they refine

The shape of a constraint is what is left of it without its refinements: a type or a sequence of a
type. Which checks a shape supports is read off the check and the shape alone. A supported check
applies to every value of the shape, because the checks of the shape come first and stop the run on
all other values; a check that is not supported meets a value of the shape to which it does not
apply.

**Results.**
* `checks_eq_append`: what compiles is the checks of a shape and then the leaves of its
  refinements.
* `applies_of_isSupportedOn`: a supported check applies to every value of the shape.
* `IsSupported.runAll_isOk`: the run of a supported constraint comes to a verdict on every value.
* `exists_not_applicable`: a check that is not supported meets a value it does not apply to.
-/
namespace CallContract

/-! ## Shapes -/

namespace Constraint

/-- What is left of a constraint without its refinements. -/
inductive Shape where
  | plain (t : ValueType)
  | sequenceOf (t : ValueType)
deriving DecidableEq, Repr

/-- The constraint that asks for the shape and nothing else. -/
def Shape.constraint : Shape → Constraint
  | .plain t => .plain t
  | .sequenceOf t => .sequenceOf (.plain t)

def Shape.checks : Shape → List Check
  | .plain t => [.typeEquals t]
  | .sequenceOf t => [.isSequenceShaped (.sequenceOf (.plain t)), .eachSatisfies (.typeEquals t)]

/-- The shape of a constraint; those that never compile have none. -/
def shape? : Constraint → Option Shape
  | .plain t => some (.plain t)
  | .refined base _ => base.shape?
  | .sequenceOf (.plain t) => some (.sequenceOf t)
  | .sequenceOf _ | .other _ => none

/-- The values of a shape. -/
def Shape.Contains (s : Shape) (v : Value) : Prop := s.constraint.Admits v

theorem Shape.checks_constraint (s : Shape) : s.constraint.checks = .ok s.checks := by
  cases s <;> rfl

end Constraint

/-! ## Leaves of refinements -/

mutual

/-- The checks of an item, groups flattened and kinds replaced by the checks they stand for. -/
def Refinement.leaves : Refinement → List Check
  | .check c => [c]
  | .kind k => k.check?.toList
  | .group items => Refinement.leavesOfAll items

def Refinement.leavesOfAll : List Refinement → List Check
  | [] => []
  | item :: items => item.leaves ++ Refinement.leavesOfAll items

end

/-- The checks that the refinements of a constraint add, the innermost refinement first. -/
def Constraint.extras : Constraint → List Check
  | .refined base items => base.extras ++ Refinement.leavesOfAll items
  | _ => []

mutual

theorem Refinement.checks_eq_leaves {item : Refinement} {cs : List Check}
    (h : item.checks = .ok cs) : cs = item.leaves := by
  cases item with
  | check c => exact (checks_check_eq_ok.1 h).2
  | kind k =>
    obtain ⟨c, hk, rfl⟩ := checks_kind_eq_ok.1 h
    rw [leaves, hk]
    rfl
  | group items =>
    rw [leaves]
    exact checksOfAll_eq_leavesOfAll (checks_group_eq_ok.1 h).2

theorem Refinement.checksOfAll_eq_leavesOfAll {items : List Refinement} {cs : List Check}
    (h : Refinement.checksOfAll items = .ok cs) : cs = Refinement.leavesOfAll items := by
  cases items with
  | nil => cases h; rfl
  | cons item items =>
    obtain ⟨ds, es, hd, he, rfl⟩ := checksOfAll_cons_eq_ok.1 h
    rw [leavesOfAll, checks_eq_leaves hd, checksOfAll_eq_leavesOfAll he]

end

theorem Constraint.checks_eq_append {a : Constraint} {cs : List Check} (h : a.checks = .ok cs) :
    ∃ s, a.shape? = some s ∧ cs = s.checks ++ a.extras := by
  induction a generalizing cs with
  | plain t => cases h; exact ⟨.plain t, rfl, rfl⟩
  | refined base items ih =>
    obtain ⟨-, ds, es, hd, he, rfl⟩ := checks_refined_eq_ok.1 h
    obtain ⟨s, hs, rfl⟩ := ih hd
    refine ⟨s, hs, ?_⟩
    rw [Refinement.checksOfAll_eq_leavesOfAll he, extras, List.append_assoc]
  | sequenceOf element =>
    obtain ⟨c, hc, rfl⟩ := checks_sequenceOf_eq_ok.1 h
    obtain ⟨t, rfl, rfl⟩ := checks_eq_ok_singleton hc
    exact ⟨.sequenceOf t, rfl, rfl⟩
  | other text => cases h

/-! ## Support -/

/-- Whether the check applies to every value of the shape. -/
def Check.isSupportedOn : Check → Constraint.Shape → Bool
  | .typeEquals _, _ | .isSequenceShaped _, _ => true
  | .positive, .plain t => t ∈ [.bool, .int, .float]
  | .positive, .sequenceOf _ => false
  | .nonEmpty, .plain t => t ∈ [.str, .list, .tuple, .dict]
  | .nonEmpty, .sequenceOf _ => true
  | .monotonicIncreasing, .plain t => t = .str
  | .monotonicIncreasing, .sequenceOf t => t ∈ [.bool, .int, .float, .str]
  | .eachSatisfies inner, .plain .str => inner.isSupportedOn (.plain .str)
  | .eachSatisfies inner, .sequenceOf t => inner.isSupportedOn (.plain t)
  | .eachSatisfies inner, .plain .list | .eachSatisfies inner, .plain .tuple
  | .eachSatisfies inner, .plain .dict => inner.isSupportedOn (.plain .object)
  | .eachSatisfies _, .plain _ => false

/-- Every check that the constraint adds to its shape is supported there. -/
def Constraint.IsSupported (a : Constraint) : Prop :=
  ∀ s, a.shape? = some s → ∀ c ∈ a.extras, c.isSupportedOn s = true

/-- The checks in order up to the first that does not pass, and the outcome of that one. -/
def Check.runAll : List Check → Value → Except Inapplicable Verdict
  | [], _ => .ok .pass
  | c :: cs, v =>
    match c.evaluate v with
    | .ok .pass => runAll cs v
    | outcome => outcome

/-! ## Order between values of one type -/

namespace Value

theorem gt?_isSome_of_number {v w : Value} (hv : v.number?.isSome = true)
    (hw : w.number?.isSome = true) : (v.gt? w).isSome = true := by
  rw [Option.isSome_iff_ne_none, Ne, gt?_eq_none_iff]
  unfold compare
  split
  · simp
  · simp [number?] at hv
  · simp [number?] at hv
  · obtain ⟨m, hm⟩ := Option.isSome_iff_exists.1 hv
    obtain ⟨n, hn⟩ := Option.isSome_iff_exists.1 hw
    simp only [hm, hn]
    cases m.compare? n <;> simp

theorem gt?_isSome_of_str (s t : String) : ((Value.str s).gt? (.str t)).isSome = true := by
  simp [gt?, compare]

theorem IsOf.number?_isSome {v : Value} {t : ValueType} (h : v.IsOf t)
    (ht : t ∈ [ValueType.bool, .int, .float]) : v.number?.isSome = true := by
  cases h <;> first | rfl | simp at ht

/-- Numbers of one type and texts have an order among themselves. -/
theorem IsOf.gt?_isSome {v w : Value} {t : ValueType} (hv : v.IsOf t) (hw : w.IsOf t)
    (ht : t ∈ [ValueType.bool, .int, .float, .str]) : (v.gt? w).isSome = true := by
  by_cases hs : t = .str
  · subst hs
    cases hv
    cases hw
    exact gt?_isSome_of_str _ _
  · have ht' : t ∈ [ValueType.bool, .int, .float] := by simp_all
    exact gt?_isSome_of_number (hv.number?_isSome ht') (hw.number?_isSome ht')

end Value

namespace Check

theorem increasing?_isSome {items : List Value}
    (h : ∀ v ∈ items, ∀ w ∈ items, (v.gt? w).isSome = true) :
    (increasing? items).isSome = true := by
  fun_induction increasing? items with
  | case1 v w rest hg ih =>
    exact ih fun x hx y hy => h x (List.mem_cons_of_mem _ hx) y (List.mem_cons_of_mem _ hy)
  | case2 v w rest hg => exact h w (by simp) v (by simp)
  | case3 items _ => rfl

/-! ## Supported checks apply -/

def Applies (c : Check) (v : Value) : Prop := ∃ verdict, c.evaluate v = .ok verdict

theorem firstFailure_isOk {test : Value → Except Inapplicable Verdict} {items : List Value}
    (index : Nat) (h : ∀ v ∈ items, ∃ verdict, test v = .ok verdict) :
    ∃ found, firstFailure test index items = .ok found := by
  induction items generalizing index with
  | nil => exact ⟨none, rfl⟩
  | cons v rest ih =>
    obtain ⟨⟨verdict, hv⟩, hr⟩ := List.forall_mem_cons.1 h
    rw [firstFailure, hv]
    cases verdict with
    | pass => exact ih (index + 1) hr
    | fail => exact ⟨_, rfl⟩
    | failAt _ _ => exact ⟨_, rfl⟩

theorem eachSatisfies_applies {c : Check} {v : Value} {items : List Value}
    (hv : v.elements? = some items) (h : ∀ w ∈ items, c.Applies w) :
    (eachSatisfies c).Applies v := by
  obtain ⟨found, hf⟩ := firstFailure_isOk 0 h
  rw [Applies, evaluate, hv]
  simp only [hf]
  cases found with
  | none => exact ⟨_, rfl⟩
  | some found => exact ⟨_, rfl⟩

theorem nonEmpty_applies {v : Value} {items : List Value} (hv : v.elements? = some items) :
    nonEmpty.Applies v := by
  rw [Applies, evaluate, Value.length?_eq, hv]
  exact ⟨_, rfl⟩

theorem monotonicIncreasing_applies {v : Value} {items : List Value}
    (hv : v.elements? = some items) (hi : v.isIndexable = true)
    (h : ∀ x ∈ items, ∀ y ∈ items, (x.gt? y).isSome = true) : monotonicIncreasing.Applies v := by
  obtain ⟨passed, hp⟩ := Option.isSome_iff_exists.1 (increasing?_isSome h)
  rw [Applies, evaluate, evaluateIncreasing, Value.length?_eq, hv]
  simp only [Option.map_some, hi, if_true, hp]
  split <;> exact ⟨_, rfl⟩

theorem positive_applies {v : Value} (h : v.number?.isSome = true) : positive.Applies v := by
  obtain ⟨passed, hp⟩ := Option.isSome_iff_exists.1
    (Value.gt?_isSome_of_number h (w := .int 0) rfl)
  rw [Applies, evaluate, hp]
  exact ⟨_, rfl⟩

/-- A supported check applies to every value of the shape. -/
theorem applies_of_isSupportedOn {c : Check} {s : Constraint.Shape} {v : Value}
    (hc : c.isSupportedOn s = true) (hv : s.Contains v) : c.Applies v := by
  induction c generalizing s v with
  | typeEquals declared => exact ⟨_, rfl⟩
  | isSequenceShaped declared => exact ⟨_, rfl⟩
  | nonEmpty =>
    cases s with
    | plain t =>
      simp only [isSupportedOn, decide_eq_true_eq] at hc
      cases hv <;> first | exact nonEmpty_applies rfl | simp at hc
    | sequenceOf t =>
      obtain ⟨items, rfl, -⟩ := hv
      exact nonEmpty_applies rfl
  | monotonicIncreasing =>
    cases s with
    | plain t =>
      simp only [isSupportedOn, decide_eq_true_eq] at hc
      subst hc
      cases hv
      refine monotonicIncreasing_applies rfl rfl fun x hx y hy => ?_
      obtain ⟨a, -, rfl⟩ := List.mem_map.1 hx
      obtain ⟨b, -, rfl⟩ := List.mem_map.1 hy
      exact Value.gt?_isSome_of_str _ _
    | sequenceOf t =>
      simp only [isSupportedOn, decide_eq_true_eq] at hc
      obtain ⟨items, rfl, hi⟩ := hv
      exact monotonicIncreasing_applies rfl rfl fun x hx y hy => (hi x hx).gt?_isSome (hi y hy) hc
  | positive =>
    cases s with
    | plain t =>
      simp only [isSupportedOn, decide_eq_true_eq] at hc
      exact positive_applies (Value.IsOf.number?_isSome hv hc)
    | sequenceOf t => cases hc
  | eachSatisfies inner ih =>
    cases s with
    | plain t =>
      cases hv with
      | str s =>
        refine eachSatisfies_applies rfl fun w hw => ih hc ?_
        obtain ⟨a, -, rfl⟩ := List.mem_map.1 hw
        exact .str _
      | list items => exact eachSatisfies_applies rfl fun w _ => ih hc (.object w)
      | tuple items => exact eachSatisfies_applies rfl fun w _ => ih hc (.object w)
      | dict entries => exact eachSatisfies_applies rfl fun w _ => ih hc (.object w)
      | _ => cases hc
    | sequenceOf t =>
      obtain ⟨items, rfl, hi⟩ := hv
      exact eachSatisfies_applies rfl fun w hw => ih hc (hi w hw)

/-! ## Runs -/

theorem runAll_append (cs ds : List Check) (v : Value) :
    runAll (cs ++ ds) v =
      match runAll cs v with
      | .ok .pass => runAll ds v
      | outcome => outcome := by
  induction cs with
  | nil => rfl
  | cons c cs ih =>
    simp only [List.cons_append, runAll]
    split
    · exact ih
    · split <;> simp_all

theorem runAll_eq_pass {cs : List Check} {v : Value} :
    runAll cs v = .ok .pass ↔ ∀ c ∈ cs, c.evaluate v = .ok .pass := by
  induction cs with
  | nil => simp [runAll]
  | cons c cs ih =>
    rw [List.forall_mem_cons, runAll]
    split
    · rename_i h
      rw [ih, and_iff_right h]
    · rename_i h
      exact ⟨fun h' => absurd h' h, fun h' => absurd h'.1 h⟩

theorem runAll_isOk {cs : List Check} {v : Value} (h : ∀ c ∈ cs, c.Applies v) :
    ∃ verdict, runAll cs v = .ok verdict := by
  induction cs with
  | nil => exact ⟨_, rfl⟩
  | cons c cs ih =>
    obtain ⟨⟨verdict, hc⟩, hcs⟩ := List.forall_mem_cons.1 h
    rw [runAll, hc]
    cases verdict with
    | pass => exact ih hcs
    | fail => exact ⟨_, rfl⟩
    | failAt _ _ => exact ⟨_, rfl⟩

end Check

namespace Constraint

/-- The checks of a shape come to a verdict on every value, of the shape or not. -/
theorem Shape.runAll_checks_isOk (s : Shape) (v : Value) :
    ∃ verdict, Check.runAll s.checks v = .ok verdict := by
  cases s with
  | plain t => exact Check.runAll_isOk fun c hc => by rw [List.mem_singleton.1 hc]; exact ⟨_, rfl⟩
  | sequenceOf t =>
    cases v with
    | list items =>
      refine Check.runAll_isOk fun c hc => ?_
      rcases List.mem_pair.1 hc with rfl | rfl
      · exact ⟨_, rfl⟩
      · exact Check.eachSatisfies_applies rfl fun w _ => ⟨_, rfl⟩
    | _ => exact ⟨.fail, rfl⟩

theorem Shape.runAll_checks_eq_pass {s : Shape} {v : Value} :
    Check.runAll s.checks v = .ok .pass ↔ s.Contains v := by
  rw [Check.runAll_eq_pass]
  exact checks_pass_iff_admits s.checks_constraint v

/-- A supported constraint comes to a verdict on every value. -/
theorem IsSupported.runAll_isOk {a : Constraint} {cs : List Check} (hs : a.IsSupported)
    (h : a.checks = .ok cs) (v : Value) : ∃ verdict, Check.runAll cs v = .ok verdict := by
  obtain ⟨s, ha, rfl⟩ := checks_eq_append h
  obtain ⟨verdict, hv⟩ := s.runAll_checks_isOk v
  rw [Check.runAll_append, hv]
  cases verdict with
  | pass =>
    have hc := Shape.runAll_checks_eq_pass.1 hv
    exact Check.runAll_isOk fun c hm => Check.applies_of_isSupportedOn (hs s ha c hm) hc
  | fail => exact ⟨_, rfl⟩
  | failAt _ _ => exact ⟨_, rfl⟩

end Constraint

/-! ## Unsupported checks meet a value they do not apply to -/

namespace Check

theorem eachSatisfies_error {c : Check} {v w : Value} {rest : List Value} {e : Inapplicable}
    (hv : v.elements? = some (w :: rest)) (hw : c.evaluate w = .error e) :
    (eachSatisfies c).evaluate v = .error e := by
  simp only [evaluate, hv, firstFailure, hw]

theorem elements?_ofChar (a : Char) : (Value.ofChar a).elements? = some [.ofChar a] := by
  simp [Value.ofChar, Value.elements?]

/-- A character is its own only element, so it stops a check of texts at any depth. -/
theorem exists_error_on_char {c : Check} (h : c.isSupportedOn (.plain .str) = false) (a : Char) :
    ∃ e, c.evaluate (.ofChar a) = .error e := by
  induction c with
  | positive => exact ⟨_, rfl⟩
  | eachSatisfies inner ih =>
    obtain ⟨e, he⟩ := ih h
    exact ⟨e, eachSatisfies_error (elements?_ofChar a) he⟩
  | _ => cases h

theorem exists_error_nonEmpty {s : Constraint.Shape} (h : nonEmpty.isSupportedOn s = false) :
    ∃ v, s.Contains v ∧ ∃ e, nonEmpty.evaluate v = .error e := by
  cases s with
  | plain t =>
    cases t with
    | none => exact ⟨.none, .none, _, rfl⟩
    | bool => exact ⟨.bool true, .bool _, _, rfl⟩
    | int => exact ⟨.int 0, .int _, _, rfl⟩
    | float => exact ⟨.float default, .float _, _, rfl⟩
    | object => exact ⟨.none, .object _, _, rfl⟩
    | _ => cases h
  | sequenceOf t => cases h

theorem exists_error_positive {s : Constraint.Shape} (h : positive.isSupportedOn s = false) :
    ∃ v, s.Contains v ∧ ∃ e, positive.evaluate v = .error e := by
  cases s with
  | plain t =>
    cases t with
    | none => exact ⟨.none, .none, _, rfl⟩
    | str => exact ⟨.str "", .str _, _, rfl⟩
    | list => exact ⟨.list [], .list _, _, rfl⟩
    | tuple => exact ⟨.tuple [], .tuple _, _, rfl⟩
    | dict => exact ⟨.dict [], .dict _, _, rfl⟩
    | object => exact ⟨.none, .object _, _, rfl⟩
    | _ => cases h
  | sequenceOf t => exact ⟨.list [], ⟨[], rfl, by simp⟩, _, rfl⟩

/-- Two values of the type without an order between them, where the type has such. -/
theorem exists_unordered {t : ValueType} (h : t ∉ [ValueType.bool, .int, .float, .str]) :
    ∃ v w : Value, v.IsOf t ∧ w.IsOf t ∧ w.gt? v = none := by
  cases t with
  | none => exact ⟨.none, .none, .none, .none, rfl⟩
  | list => exact ⟨.list [.none], .list [.bool true], .list _, .list _, rfl⟩
  | tuple => exact ⟨.tuple [.none], .tuple [.bool true], .tuple _, .tuple _, rfl⟩
  | dict => exact ⟨.dict [], .dict [], .dict _, .dict _, rfl⟩
  | object => exact ⟨.none, .none, .object _, .object _, rfl⟩
  | _ => simp at h

theorem evaluate_monotonicIncreasing_pair {v w : Value} (h : w.gt? v = none) :
    monotonicIncreasing.evaluate (.list [v, w]) = .error ⟨.stepOrder, .list [v, w]⟩ := by
  simp [evaluate, evaluateIncreasing, Value.length?, Value.elements?, Value.isIndexable,
    increasing?, h]

theorem exists_error_monotonicIncreasing {s : Constraint.Shape}
    (h : monotonicIncreasing.isSupportedOn s = false) :
    ∃ v, s.Contains v ∧ ∃ e, monotonicIncreasing.evaluate v = .error e := by
  cases s with
  | plain t =>
    cases t with
    | none => exact ⟨.none, .none, _, rfl⟩
    | bool => exact ⟨.bool true, .bool _, _, rfl⟩
    | int => exact ⟨.int 0, .int _, _, rfl⟩
    | float => exact ⟨.float default, .float _, _, rfl⟩
    | str => cases h
    | list => exact ⟨.list [.none, .none], .list _, _, rfl⟩
    | tuple => exact ⟨.tuple [.none, .none], .tuple _, _, rfl⟩
    | dict => exact ⟨.dict [(.none, .none), (.none, .none)], .dict _, _, rfl⟩
    | object => exact ⟨.none, .object _, _, rfl⟩
  | sequenceOf t =>
    obtain ⟨v, w, hv, hw, hg⟩ := exists_unordered (of_decide_eq_false h)
    refine ⟨.list [v, w], ⟨[v, w], rfl, fun x hx => ?_⟩, _, evaluate_monotonicIncreasing_pair hg⟩
    rcases List.mem_pair.1 hx with rfl | rfl
    · exact hv
    · exact hw

/-- A check that a shape does not support meets a value of the shape it does not apply to. -/
theorem exists_not_applicable (c : Check) (s : Constraint.Shape) (h : c.isSupportedOn s = false) :
    ∃ v, s.Contains v ∧ ∃ e, c.evaluate v = .error e := by
  induction c generalizing s with
  | typeEquals declared => cases h
  | isSequenceShaped declared => cases h
  | nonEmpty => exact exists_error_nonEmpty h
  | monotonicIncreasing => exact exists_error_monotonicIncreasing h
  | positive => exact exists_error_positive h
  | eachSatisfies inner ih =>
    cases s with
    | plain t =>
      cases t with
      | none => exact ⟨.none, .none, _, rfl⟩
      | bool => exact ⟨.bool true, .bool _, _, rfl⟩
      | int => exact ⟨.int 0, .int _, _, rfl⟩
      | float => exact ⟨.float default, .float _, _, rfl⟩
      | str => exact ⟨.ofChar 'a', .str _, exists_error_on_char (c := eachSatisfies inner) h 'a'⟩
      | list =>
        obtain ⟨w, -, e, he⟩ := ih (.plain .object) h
        exact ⟨.list [w], .list _, e, eachSatisfies_error rfl he⟩
      | tuple =>
        obtain ⟨w, -, e, he⟩ := ih (.plain .object) h
        exact ⟨.tuple [w], .tuple _, e, eachSatisfies_error rfl he⟩
      | dict =>
        obtain ⟨w, -, e, he⟩ := ih (.plain .object) h
        exact ⟨.dict [(w, .none)], .dict _, e, eachSatisfies_error rfl he⟩
      | object => exact ⟨.none, .object _, _, rfl⟩
    | sequenceOf t =>
      obtain ⟨w, hw, e, he⟩ := ih (.plain t) h
      refine ⟨.list [w], ⟨[w], rfl, fun x hx => ?_⟩, e, eachSatisfies_error rfl he⟩
      rw [List.mem_singleton.1 hx]
      exact hw

theorem isValueCheck_of_not_supported {c : Check} {s : Constraint.Shape}
    (h : c.isSupportedOn s = false) : c.isValueCheck = true := by
  cases c <;> first | rfl | cases h

end Check

/-- A shape refined by a check that it does not support compiles, and its run fails to apply on
some value of the shape. -/
theorem Constraint.Shape.exists_run_error {s : Shape} {c : Check} (h : c.isSupportedOn s = false) :
    ∃ v e, s.Contains v ∧
      (refined s.constraint [.check c]).checks = .ok (s.checks ++ [c]) ∧
      Check.runAll (s.checks ++ [c]) v = .error e := by
  obtain ⟨v, hv, e, he⟩ := Check.exists_not_applicable c s h
  have hc : Refinement.checksOfAll [.check c] = .ok [c] :=
    Refinement.checksOfAll_cons_eq_ok.2 ⟨[c], [], Refinement.checks_check_eq_ok.2
      ⟨Check.isValueCheck_of_not_supported h, rfl⟩, rfl, rfl⟩
  refine ⟨v, e, hv, checks_refined_eq_ok.2 ⟨by simp, _, _, s.checks_constraint, hc, rfl⟩, ?_⟩
  rw [Check.runAll_append, runAll_checks_eq_pass.2 hv]
  simp only [Check.runAll, he]

end CallContract
