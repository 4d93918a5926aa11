import CallContract.Check.Evaluation

/-!
# Checks of elements

A check of elements comes to a verdict on the first element that the inner check does not pass, and
looks at nothing behind it: a verdict there is a failure at that element, and where the inner check
does not apply, nor does the whole check, for the same reason. All other checks pass or fail as a
whole.

**Results.**
* `evaluate_eachSatisfies_of_first`: what the first element not passed makes of the check.
* `evaluate_eq_failAt_iff`: an element is reported by checks of elements only, and it is the first
  that the inner check does not pass.
* `value_of_evaluate_eq_error`: any other check that does not apply says so of the value itself.
-/
namespace CallContract

/-- Of the elements of a list all are as asked, or there is a first that is not. -/
theorem forall_mem_or_first {α : Type} (P : α → Prop) (l : List α) :
    (∀ a ∈ l, P a) ∨ ∃ before a after, l = before ++ a :: after ∧ (∀ b ∈ before, P b) ∧ ¬ P a := by
  induction l with
  | nil => exact .inl (by simp)
  | cons a l ih =>
    by_cases ha : P a
    · rcases ih with hl | ⟨before, b, after, rfl, hb, hn⟩
      · exact .inl (List.forall_mem_cons.2 ⟨ha, hl⟩)
      · exact .inr ⟨a :: before, b, after, rfl, List.forall_mem_cons.2 ⟨ha, hb⟩, hn⟩
    · exact .inr ⟨[], a, l, rfl, by simp, ha⟩

namespace Check

/-! ## The first element not passed -/

theorem firstFailure_of_first {test : Value → Except Inapplicable Verdict} {start : Nat}
    {before after : List Value} {x : Value} (hb : ∀ w ∈ before, test w = .ok .pass)
    (hx : test x ≠ .ok .pass) :
    firstFailure test start (before ++ x :: after) =
      (test x).map fun _ => some (start + before.length, x) := by
  induction before generalizing start with
  | nil =>
    rw [List.nil_append, firstFailure]
    split
    · rename_i h
      rw [h]
      rfl
    · rename_i h
      exact absurd h hx
    · rename_i h
      rw [h]
      rfl
  | cons w before ih =>
    obtain ⟨hw, hb⟩ := List.forall_mem_cons.1 hb
    rw [List.cons_append, firstFailure, hw, List.length_cons, ← Nat.add_assoc,
      Nat.add_right_comm start]
    exact ih hb

/-- The first element not passed decides, by the outcome of the inner check on it alone. -/
theorem evaluate_eachSatisfies_of_first {c : Check} {v x : Value} {before after : List Value}
    (hv : v.elements? = some (before ++ x :: after))
    (hb : ∀ w ∈ before, c.evaluate w = .ok .pass) (hx : c.evaluate x ≠ .ok .pass) :
    (eachSatisfies c).evaluate v = (c.evaluate x).map fun _ => .failAt before.length x := by
  simp only [evaluate, hv, firstFailure_of_first hb hx, Nat.zero_add]
  cases c.evaluate x <;> rfl

theorem evaluate_eachSatisfies_of_elements?_eq_none {c : Check} {v : Value}
    (hv : v.elements? = none) : (eachSatisfies c).evaluate v = .error ⟨.iteration, v⟩ := by
  simp only [evaluate, hv]

theorem evaluate_eachSatisfies_eq_failAt {c : Check} {v : Value} {index : Nat} {x : Value} :
    (eachSatisfies c).evaluate v = .ok (.failAt index x) ↔
      ∃ before after, v.elements? = some (before ++ x :: after) ∧ index = before.length ∧
        (∀ w ∈ before, c.evaluate w = .ok .pass) ∧
        ∃ verdict, c.evaluate x = .ok verdict ∧ verdict ≠ .pass := by
  refine ⟨fun h => ?_, ?_⟩
  · cases hv : v.elements? with
    | none =>
      rw [evaluate_eachSatisfies_of_elements?_eq_none hv] at h
      cases h
    | some items =>
      rcases forall_mem_or_first (c.evaluate · = .ok .pass) items with
        hall | ⟨before, y, after, rfl, hb, hy⟩
      · rw [evaluate_eachSatisfies_eq_pass.2 ⟨items, hv, hall⟩] at h
        cases h
      · rw [evaluate_eachSatisfies_of_first hv hb hy] at h
        cases hev : c.evaluate y with
        | error e =>
          rw [hev] at h
          cases h
        | ok verdict =>
          rw [hev] at h hy
          cases h
          exact ⟨before, after, rfl, rfl, hb, verdict, hev, fun he => hy (by rw [he])⟩
  · rintro ⟨before, after, hv, rfl, hb, verdict, hx, hne⟩
    have hx' : c.evaluate x ≠ .ok .pass := by simpa [hx] using hne
    rw [evaluate_eachSatisfies_of_first hv hb hx', hx]
    rfl

/-! ## Other checks -/

/-- A check that is not one of elements passes or fails as a whole. -/
theorem verdict_eq_ofBool {c : Check} {v : Value} {verdict : Verdict} (hc : c.category ≠ .each)
    (h : c.evaluate v = .ok verdict) : ∃ passed, verdict = ofBool passed := by
  cases c with
  | typeEquals declared => cases h; exact ⟨_, rfl⟩
  | isSequenceShaped declared => cases h; exact ⟨_, rfl⟩
  | nonEmpty =>
    rw [evaluate] at h
    split at h
    · cases h; exact ⟨_, rfl⟩
    · cases h
  | monotonicIncreasing =>
    rw [evaluate, evaluateIncreasing] at h
    split at h
    · split at h
      · cases h; exact ⟨true, rfl⟩
      · split at h
        · split at h
          · cases h; exact ⟨_, rfl⟩
          · cases h
        · cases h
    · cases h
  | positive =>
    rw [evaluate] at h
    split at h
    · cases h; exact ⟨_, rfl⟩
    · cases h
  | eachSatisfies inner => exact absurd rfl hc

theorem category_eq_each_iff {c : Check} :
    c.category = .each ↔ ∃ inner, c = .eachSatisfies inner := by
  cases c <;> simp [category]

/-- Only a check of elements fails at an element. -/
theorem evaluate_eq_failAt_iff {c : Check} {v : Value} {index : Nat} {x : Value} :
    c.evaluate v = .ok (.failAt index x) ↔
      ∃ inner before after, c = .eachSatisfies inner ∧
        v.elements? = some (before ++ x :: after) ∧ index = before.length ∧
        (∀ w ∈ before, inner.evaluate w = .ok .pass) ∧
        ∃ verdict, inner.evaluate x = .ok verdict ∧ verdict ≠ .pass := by
  refine ⟨fun h => ?_, ?_⟩
  · by_cases hc : c.category = .each
    · obtain ⟨inner, rfl⟩ := category_eq_each_iff.1 hc
      obtain ⟨before, after, hx⟩ := evaluate_eachSatisfies_eq_failAt.1 h
      exact ⟨inner, before, after, rfl, hx⟩
    · obtain ⟨passed, hp⟩ := verdict_eq_ofBool hc h
      cases passed <;> cases hp
  · rintro ⟨inner, before, after, rfl, hx⟩
    exact evaluate_eachSatisfies_eq_failAt.2 ⟨before, after, hx⟩

/-- A check of elements that is not passed fails at one of them. -/
theorem category_ne_each_of_fail {c : Check} {v : Value} (h : c.evaluate v = .ok .fail) :
    c.category ≠ .each := by
  rw [Ne, category_eq_each_iff]
  rintro ⟨inner, rfl⟩
  rw [evaluate] at h
  split at h
  · split at h <;> cases h
  · cases h

/-- A check that is not one of elements needs an operation of the value itself. -/
theorem value_of_evaluate_eq_error {c : Check} {v : Value} {e : Inapplicable}
    (hc : c.category ≠ .each) (h : c.evaluate v = .error e) : e.value = v := by
  cases c with
  | typeEquals declared => cases h
  | isSequenceShaped declared => cases h
  | nonEmpty =>
    rw [evaluate] at h
    split at h
    · cases h
    · cases h; rfl
  | monotonicIncreasing =>
    rw [evaluate, evaluateIncreasing] at h
    split at h
    · split at h
      · cases h
      · split at h
        · split at h
          · cases h
          · cases h; rfl
        · cases h; rfl
    · cases h; rfl
  | positive =>
    rw [evaluate] at h
    split at h
    · cases h
    · cases h; rfl
  | eachSatisfies inner => exact absurd rfl hc

end Check
end CallContract
