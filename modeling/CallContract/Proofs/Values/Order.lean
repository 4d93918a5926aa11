import CallContract.Value.Order
import Mathlib.Data.List.Forall2

/-!
# Laws of equality and order of values

`==` and `>` run through the nesting of values together: a list is decided by its first unequal
pair, so that `>` is transitive only because `==` is and the two fit each other. `Equals` and
`Exceeds` say case by case what `v == w` and `v > w` amount to; every law below is by induction on
the parts of a value (`inductionOnParts`) and by cases on these two.

**Results.**
* `beq_trans`: equality is transitive, NaN and repeated keys included.
* `exceeds_of_exceeds_of_beq`, `exceeds_of_beq_of_exceeds`: order fits equality.
* `exceeds_trans`: order is transitive over numbers, texts and nested lists and tuples.
-/
namespace CallContract

namespace Number

theorem compare?_eq_some_eq {a b : Number} : a.compare? b = some .eq ↔ a = b ∧ a ≠ .nan := by
  cases a <;> cases b <;> simp [compare?]

theorem compare?_eq_some_gt_trans {a b c : Number} (hab : a.compare? b = some .gt)
    (hbc : b.compare? c = some .gt) : a.compare? c = some .gt := by
  cases a <;> cases b <;> cases c <;> simp_all [compare?, Int.compare_eq_gt]
  omega

end Number

namespace Value

/-! ## Parts -/

/-- The values directly inside a value. -/
def parts : Value → List Value
  | .list items | .tuple items => items
  | .dict entries => entries.map (·.1) ++ entries.map (·.2)
  | _ => []

theorem sizeOf_lt_of_mem_parts {v w : Value} (h : w ∈ v.parts) : sizeOf w < sizeOf v := by
  cases v with
  | list items | tuple items =>
    have := List.sizeOf_lt_of_mem h
    simp only [parts, list.sizeOf_spec, tuple.sizeOf_spec] at this ⊢; omega
  | dict entries =>
    rw [parts, List.mem_append, List.mem_map, List.mem_map] at h
    rw [dict.sizeOf_spec]
    rcases h with ⟨⟨k, x⟩, he, rfl⟩ | ⟨⟨k, x⟩, he, rfl⟩ <;>
      have := List.sizeOf_lt_of_mem he <;> rw [Prod.mk.sizeOf_spec] at this <;> simp only <;> omega
  | _ => simp [parts] at h

/-- What holds of a value once it holds of its parts holds of every value. -/
theorem inductionOnParts {P : Value → Prop} (h : ∀ v, (∀ w ∈ v.parts, P w) → P v) (v : Value) :
    P v :=
  h v fun w hw =>
    have := sizeOf_lt_of_mem_parts hw
    inductionOnParts h w
termination_by sizeOf v

/-! ## What equality amounts to -/

inductive Equals : Value → Value → Prop where
  | none : Equals .none .none
  | number {v w : Value} {m : Number} (hv : v.number? = some m) (hw : w.number? = some m)
      (hm : m ≠ .nan) : Equals v w
  | str (s : String) : Equals (.str s) (.str s)
  | list {items others : List Value} (h : List.Forall₂ (· == ·) items others) :
      Equals (.list items) (.list others)
  | tuple {items others : List Value} (h : List.Forall₂ (· == ·) items others) :
      Equals (.tuple items) (.tuple others)
  | dict {entries others : List (Value × Value)} (hl : entries.length = others.length)
      (h : ∀ e ∈ entries, ∃ o ∈ others, e.1 == o.1 ∧ e.2 == o.2) :
      Equals (.dict entries) (.dict others)

theorem eqItems_iff {items others : List Value} :
    eqItems items others = true ↔ List.Forall₂ (· == ·) items others := by
  induction items generalizing others with
  | nil => cases others <;> simp [eqItems]
  | cons v items ih =>
    cases others with
    | nil => simp [eqItems]
    | cons w others =>
      rw [eqItems, Bool.and_eq_true, ih, List.forall₂_cons]
      rfl

theorem eqEntries_iff {entries others : List (Value × Value)} :
    eqEntries entries others = true ↔
      ∀ e ∈ entries, ∃ o ∈ others, e.1 == o.1 ∧ e.2 == o.2 := by
  induction entries with
  | nil => simp [eqEntries]
  | cons e entries ih =>
    simp only [eqEntries, Bool.and_eq_true, List.any_eq_true, ih, List.mem_cons,
      forall_eq_or_imp]
    rfl

theorem beq_iff_equals {v w : Value} : (v == w) = true ↔ Equals v w := by
  refine ⟨?_, ?_⟩
  · intro h
    change eq v w = true at h
    unfold eq at h
    split at h
    · exact .none
    · rw [eq_of_beq h]; exact .str _
    · exact .list (eqItems_iff.1 h)
    · exact .tuple (eqItems_iff.1 h)
    · rw [Bool.and_eq_true, beq_iff_eq, eqEntries_iff] at h
      exact .dict h.1 h.2
    · split at h
      · rename_i m n hv hw
        obtain ⟨rfl, hm⟩ := Number.compare?_eq_some_eq.1 (eq_of_beq h)
        exact .number hv hw hm
      · cases h
  · intro h
    change eq v w = true
    cases h with
    | none => rfl
    | str s => simp [eq]
    | list h => rw [eq]; exact eqItems_iff.2 h
    | tuple h => rw [eq]; exact eqItems_iff.2 h
    | dict hl h => rw [eq, eqEntries_iff.2 h, hl]; simp
    | number hv hw hm =>
      unfold eq
      split <;> simp_all [number?, Number.compare?_eq_some_eq]

/-! ## What order amounts to -/

inductive Exceeds : Value → Value → Prop where
  | number {v w : Value} {m n : Number} (hv : v.number? = some m) (hw : w.number? = some n)
      (h : m.compare? n = some .gt) : Exceeds v w
  | str {s t : String} (h : Ord.compare s t = .gt) : Exceeds (.str s) (.str t)
  | list {items others : List Value} (h : compareItems items others = .decided .gt) :
      Exceeds (.list items) (.list others)
  | tuple {items others : List Value} (h : compareItems items others = .decided .gt) :
      Exceeds (.tuple items) (.tuple others)

theorem compare_eq_gt_iff {v w : Value} : compare v w = .decided .gt ↔ Exceeds v w := by
  refine ⟨?_, ?_⟩
  · intro h
    unfold compare at h
    split at h
    · exact .str (Relation.decided.inj h)
    · exact .list h
    · exact .tuple h
    · split at h
      · rename_i m n hv hw
        split at h
        · rename_i o ho
          cases h
          exact .number hv hw ho
        · cases h
      · cases h
  · intro h
    cases h with
    | str h => rw [compare, h]
    | list h => rw [compare]; exact h
    | tuple h => rw [compare]; exact h
    | number hv hw h =>
      unfold compare
      split <;> simp_all [number?]

theorem gt?_eq_some_true_iff {v w : Value} : v.gt? w = some true ↔ Exceeds v w := by
  rw [← compare_eq_gt_iff, gt?]
  cases compare v w with
  | decided o => cases o <;> simp
  | undecided => simp
  | unorderable => simp

/-! ## Transitivity of equality -/

theorem forall₂_beq_trans {xs ys zs : List Value}
    (h : ∀ x ∈ xs, ∀ y z : Value, x == y → y == z → x == z)
    (hxy : List.Forall₂ (· == ·) xs ys) (hyz : List.Forall₂ (· == ·) ys zs) :
    List.Forall₂ (· == ·) xs zs := by
  induction hxy generalizing zs with
  | nil => cases hyz; exact .nil
  | cons hab _ ih =>
    obtain ⟨hx, hxs⟩ := List.forall_mem_cons.1 h
    cases hyz with
    | cons hbc hyz => exact .cons (hx _ _ hab hbc) (ih hxs hyz)

theorem beq_trans {a b c : Value} (hab : a == b) (hbc : b == c) : a == c := by
  induction a using inductionOnParts generalizing b c with
  | h a ih =>
    have step {x : Value} (hx : x ∈ a.parts) (y z : Value) (hxy : x == y) (hyz : y == z) :
        x == z := ih x hx hxy hyz
    rw [beq_iff_equals] at hab hbc ⊢
    cases hab with
    | none => exact hbc
    | str s => exact hbc
    | list h =>
      cases hbc with
      | list h' => exact .list (forall₂_beq_trans (fun x hx => step hx) h h')
      | number hv => cases hv
    | tuple h =>
      cases hbc with
      | tuple h' => exact .tuple (forall₂_beq_trans (fun x hx => step hx) h h')
      | number hv => cases hv
    | dict hl h =>
      cases hbc with
      | dict hl' h' =>
        refine .dict (hl.trans hl') fun e he => ?_
        obtain ⟨o, ho, hk, hx⟩ := h e he
        obtain ⟨p, hp, hk', hx'⟩ := h' o ho
        have hek : e.1 ∈ (dict _).parts := List.mem_append_left _ (List.mem_map_of_mem he)
        have hex : e.2 ∈ (dict _).parts := List.mem_append_right _ (List.mem_map_of_mem he)
        exact ⟨p, hp, step hek _ _ hk hk', step hex _ _ hx hx'⟩
      | number hv => cases hv
    | number hv hw hm =>
      cases hbc with
      | number hv' hw' =>
        cases hw.symm.trans hv'
        exact .number hv hw' hm
      | _ => cases hw

/-! ## Order and equality -/

theorem compareItems_of_forall₂ {items others : List Value}
    (h : List.Forall₂ (· == ·) items others) : compareItems items others = .decided .eq := by
  induction h with
  | nil => rfl
  | cons hv _ ih => rw [compareItems, if_pos hv, ih]

theorem not_beq_of_exceeds {v w : Value} (h : Exceeds v w) : ¬ v == w := by
  rw [beq_iff_equals]
  intro he
  cases h with
  | str h =>
    cases he with
    | str s => rw [Std.compare_self] at h; cases h
    | number hv => cases hv
  | list h =>
    cases he with
    | list he => rw [compareItems_of_forall₂ he] at h; cases h
    | number hv => cases hv
  | tuple h =>
    cases he with
    | tuple he => rw [compareItems_of_forall₂ he] at h; cases h
    | number hv => cases hv
  | number hv hw h =>
    cases he with
    | number hv' hw' hm =>
      cases hv.symm.trans hv'
      cases hw.symm.trans hw'
      rw [Number.compare?_eq_some_eq.2 ⟨rfl, hm⟩] at h
      cases h
    | _ => cases hv

/-- The first pair that is not equal decides: an equal pair is never in order. -/
theorem compareItems_cons_eq_gt {v w : Value} {items others : List Value} :
    compareItems (v :: items) (w :: others) = .decided .gt ↔
      (v == w ∧ compareItems items others = .decided .gt) ∨ Exceeds v w := by
  rw [compareItems]
  by_cases h : v == w
  · have : ¬ Exceeds v w := fun he => not_beq_of_exceeds he h
    simp [h, this]
  · simp [h, compare_eq_gt_iff]

theorem compareItems_nil_ne_gt (others : List Value) : compareItems [] others ≠ .decided .gt := by
  cases others with
  | nil => simp [compareItems]
  | cons w others => simp [compareItems, Nat.compare_eq_gt]

theorem compareItems_cons_nil (v : Value) (items : List Value) :
    compareItems (v :: items) [] = .decided .gt := by
  simp [compareItems, Nat.compare_eq_gt]

theorem compareItems_eq_gt_of_forall₂_right {xs ys zs : List Value}
    (h : ∀ x ∈ xs, ∀ y z, Exceeds x y → y == z → Exceeds x z)
    (hxy : compareItems xs ys = .decided .gt) (hyz : List.Forall₂ (· == ·) ys zs) :
    compareItems xs zs = .decided .gt := by
  induction hyz generalizing xs with
  | nil => exact hxy
  | cons hv _ ih =>
    cases xs with
    | nil => exact absurd hxy (compareItems_nil_ne_gt _)
    | cons x xs =>
      obtain ⟨hx, hxs⟩ := List.forall_mem_cons.1 h
      rw [compareItems_cons_eq_gt] at hxy ⊢
      rcases hxy with ⟨he, hxy⟩ | hxy
      · exact .inl ⟨beq_trans he hv, ih hxs hxy⟩
      · exact .inr (hx _ _ hxy hv)

theorem compareItems_eq_gt_of_forall₂_left {xs ys zs : List Value}
    (h : ∀ x ∈ xs, ∀ y z, x == y → Exceeds y z → Exceeds x z)
    (hxy : List.Forall₂ (· == ·) xs ys) (hyz : compareItems ys zs = .decided .gt) :
    compareItems xs zs = .decided .gt := by
  induction hxy generalizing zs with
  | nil => exact hyz
  | cons hv _ ih =>
    cases zs with
    | nil => exact compareItems_cons_nil _ _
    | cons z zs =>
      obtain ⟨hx, hxs⟩ := List.forall_mem_cons.1 h
      rw [compareItems_cons_eq_gt] at hyz ⊢
      rcases hyz with ⟨he, hyz⟩ | hyz
      · exact .inl ⟨beq_trans hv he, ih hxs hyz⟩
      · exact .inr (hx _ _ hv hyz)

theorem exceeds_of_exceeds_of_beq {a b c : Value} (hab : Exceeds a b) (hbc : b == c) :
    Exceeds a c := by
  induction a using inductionOnParts generalizing b c with
  | h a ih =>
    have step {x : Value} (hx : x ∈ a.parts) (y z : Value) (hxy : Exceeds x y) (hyz : y == z) :
        Exceeds x z := ih x hx hxy hyz
    rw [beq_iff_equals] at hbc
    cases hab with
    | str h =>
      cases hbc with
      | str s => exact .str h
      | number hv => cases hv
    | list h =>
      cases hbc with
      | list h' => exact .list (compareItems_eq_gt_of_forall₂_right (fun x hx => step hx) h h')
      | number hv => cases hv
    | tuple h =>
      cases hbc with
      | tuple h' => exact .tuple (compareItems_eq_gt_of_forall₂_right (fun x hx => step hx) h h')
      | number hv => cases hv
    | number hv hw h =>
      cases hbc with
      | number hv' hw' hm =>
        cases hw.symm.trans hv'
        exact .number hv hw' h
      | _ => cases hw

theorem exceeds_of_beq_of_exceeds {a b c : Value} (hab : a == b) (hbc : Exceeds b c) :
    Exceeds a c := by
  induction a using inductionOnParts generalizing b c with
  | h a ih =>
    have step {x : Value} (hx : x ∈ a.parts) (y z : Value) (hxy : x == y) (hyz : Exceeds y z) :
        Exceeds x z := ih x hx hxy hyz
    rw [beq_iff_equals] at hab
    cases hab with
    | none => exact hbc
    | str s => exact hbc
    | list h =>
      cases hbc with
      | list h' => exact .list (compareItems_eq_gt_of_forall₂_left (fun x hx => step hx) h h')
      | number hv => cases hv
    | tuple h =>
      cases hbc with
      | tuple h' => exact .tuple (compareItems_eq_gt_of_forall₂_left (fun x hx => step hx) h h')
      | number hv => cases hv
    | dict hl h => cases hbc with | number hv => cases hv
    | number hv hw hm =>
      cases hbc with
      | number hv' hw' h =>
        cases hw.symm.trans hv'
        exact .number hv hw' h
      | _ => cases hw

/-! ## Transitivity of order -/

theorem compareItems_eq_gt_trans {xs ys zs : List Value}
    (h : ∀ x ∈ xs, ∀ y z, Exceeds x y → Exceeds y z → Exceeds x z)
    (hxy : compareItems xs ys = .decided .gt) (hyz : compareItems ys zs = .decided .gt) :
    compareItems xs zs = .decided .gt := by
  induction xs generalizing ys zs with
  | nil => exact absurd hxy (compareItems_nil_ne_gt _)
  | cons x xs ih =>
    obtain ⟨hx, hxs⟩ := List.forall_mem_cons.1 h
    cases ys with
    | nil => exact absurd hyz (compareItems_nil_ne_gt _)
    | cons y ys =>
      cases zs with
      | nil => exact compareItems_cons_nil _ _
      | cons z zs =>
        rw [compareItems_cons_eq_gt] at hxy hyz ⊢
        rcases hxy with ⟨hxy, hxys⟩ | hxy <;> rcases hyz with ⟨hyz, hyzs⟩ | hyz
        · exact .inl ⟨beq_trans hxy hyz, ih hxs hxys hyzs⟩
        · exact .inr (exceeds_of_beq_of_exceeds hxy hyz)
        · exact .inr (exceeds_of_exceeds_of_beq hxy hyz)
        · exact .inr (hx _ _ hxy hyz)

theorem exceeds_trans {a b c : Value} (hab : Exceeds a b) (hbc : Exceeds b c) : Exceeds a c := by
  induction a using inductionOnParts generalizing b c with
  | h a ih =>
    have step {x : Value} (hx : x ∈ a.parts) (y z : Value) (hxy : Exceeds x y)
        (hyz : Exceeds y z) : Exceeds x z := ih x hx hxy hyz
    cases hab with
    | str h =>
      cases hbc with
      | str h' => exact .str (Std.TransCmp.gt_trans h h')
      | number hv => cases hv
    | list h =>
      cases hbc with
      | list h' => exact .list (compareItems_eq_gt_trans (fun x hx => step hx) h h')
      | number hv => cases hv
    | tuple h =>
      cases hbc with
      | tuple h' => exact .tuple (compareItems_eq_gt_trans (fun x hx => step hx) h h')
      | number hv => cases hv
    | number hv hw h =>
      cases hbc with
      | number hv' hw' h' =>
        cases hw.symm.trans hv'
        exact .number hv hw' (Number.compare?_eq_some_gt_trans h h')
      | _ => cases hw

end Value
end CallContract
