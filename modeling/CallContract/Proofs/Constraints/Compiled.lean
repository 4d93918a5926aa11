import CallContract.Constraint.Compilation

/-!
# What compiles, and to what

Inversion of the compilation of constraints: what the parts of a constraint compile to when the
whole does. A refinement compiles to at least two checks and a sequence to exactly two, so the
element of a sequence that compiles is a plain type.

**Results.**
* `checks_refined_eq_ok`, `checks_sequenceOf_eq_ok`: the compiled parts of a compiled constraint.
* `checks_eq_ok_singleton`: only a plain type compiles to a single check.
-/
namespace CallContract

theorem exceptBind_eq_ok {ε α β : Type} {x : Except ε α} {f : α → Except ε β} {b : β} :
    x >>= f = .ok b ↔ ∃ a, x = .ok a ∧ f a = .ok b := by
  cases x with
  | error e => simp [bind, Except.bind]
  | ok a => simp [bind, Except.bind]

/-! ## Items of refinements -/

namespace Refinement

theorem checks_check_eq_ok {c : Check} {cs : List Check} :
    (check c).checks = .ok cs ↔ c.isValueCheck = true ∧ cs = [c] := by
  rw [checks]
  by_cases h : c.isValueCheck = true
  · rw [if_pos h, Except.ok.injEq, and_iff_right h, eq_comm]
  · simp [h]

theorem checks_kind_eq_ok {k : Check.Kind} {cs : List Check} :
    (kind k).checks = .ok cs ↔ ∃ c, k.check? = some c ∧ cs = [c] := by
  rw [checks]
  cases k.check? <;> simp [eq_comm]

theorem checks_group_eq_ok {items : List Refinement} {cs : List Check} :
    (group items).checks = .ok cs ↔ items ≠ [] ∧ checksOfAll items = .ok cs := by
  rw [checks]
  cases items <;> simp

theorem checksOfAll_cons_eq_ok {item : Refinement} {items : List Refinement} {cs : List Check} :
    checksOfAll (item :: items) = .ok cs ↔
      ∃ ds es, item.checks = .ok ds ∧ checksOfAll items = .ok es ∧ cs = ds ++ es := by
  rw [checksOfAll]
  simp only [exceptBind_eq_ok, pure, Except.pure, Except.ok.injEq]
  refine ⟨?_, ?_⟩
  · intro h'
    obtain ⟨ds, hd, es, he, rfl⟩ := h'
    exact ⟨ds, es, hd, he, rfl⟩
  · intro h'
    obtain ⟨ds, es, hd, he, rfl⟩ := h'
    exact ⟨ds, hd, es, he, rfl⟩

mutual

theorem checks_ne_nil {item : Refinement} {cs : List Check} (h : item.checks = .ok cs) :
    cs ≠ [] := by
  cases item with
  | check c => rw [(checks_check_eq_ok.1 h).2]; simp
  | kind k => obtain ⟨c, -, rfl⟩ := checks_kind_eq_ok.1 h; simp
  | group items =>
    obtain ⟨hne, h⟩ := checks_group_eq_ok.1 h
    exact checksOfAll_ne_nil hne h

theorem checksOfAll_ne_nil {items : List Refinement} {cs : List Check} (hne : items ≠ [])
    (h : checksOfAll items = .ok cs) : cs ≠ [] := by
  cases items with
  | nil => exact absurd rfl hne
  | cons item items =>
    obtain ⟨ds, es, hd, -, rfl⟩ := checksOfAll_cons_eq_ok.1 h
    have := checks_ne_nil hd
    simp [this]

end

end Refinement

/-! ## Constraints -/

namespace Constraint

theorem checks_refined_eq_ok {base : Constraint} {items : List Refinement} {cs : List Check} :
    (refined base items).checks = .ok cs ↔
      items ≠ [] ∧ ∃ ds es, base.checks = .ok ds ∧ Refinement.checksOfAll items = .ok es ∧
        cs = ds ++ es := by
  rw [checks]
  cases items with
  | nil => simp
  | cons item items =>
    simp only [List.isEmpty_cons, Bool.false_eq_true, if_false, exceptBind_eq_ok, pure,
      Except.pure, Except.ok.injEq, ne_eq, reduceCtorEq, not_false_eq_true, true_and]
    refine ⟨?_, ?_⟩
    · intro h'
      obtain ⟨ds, hd, es, he, rfl⟩ := h'
      exact ⟨ds, es, hd, he, rfl⟩
    · intro h'
      obtain ⟨ds, es, hd, he, rfl⟩ := h'
      exact ⟨ds, hd, es, he, rfl⟩

theorem checks_sequenceOf_eq_ok {element : Constraint} {cs : List Check} :
    (sequenceOf element).checks = .ok cs ↔
      ∃ c, element.checks = .ok [c] ∧
        cs = [.isSequenceShaped (.sequenceOf element.declaredType), .eachSatisfies c] := by
  rw [checks, exceptBind_eq_ok]
  refine ⟨?_, ?_⟩
  · intro h'
    obtain ⟨ds, hd, h⟩ := h'
    split at h
    · rename_i c
      exact ⟨c, hd, (Except.ok.inj h).symm⟩
    · cases h
  · intro h'
    obtain ⟨c, hc, rfl⟩ := h'
    exact ⟨[c], hc, rfl⟩

theorem checks_eq_ok_singleton {a : Constraint} {c : Check} (h : a.checks = .ok [c]) :
    ∃ t, a = plain t ∧ c = .typeEquals t := by
  cases a with
  | plain t => cases h; exact ⟨t, rfl, rfl⟩
  | refined base items =>
    obtain ⟨hne, ds, es, hd, he, hc⟩ := checks_refined_eq_ok.1 h
    have hds := List.length_pos_iff.2 (checks_ne_nil hd)
    have hes := List.length_pos_iff.2 (Refinement.checksOfAll_ne_nil hne he)
    have := congrArg List.length hc
    simp only [List.length_singleton, List.length_append] at this
    omega
  | sequenceOf element =>
    obtain ⟨d, -, hc⟩ := checks_sequenceOf_eq_ok.1 h
    cases hc
  | other text => cases h

end Constraint
end CallContract
