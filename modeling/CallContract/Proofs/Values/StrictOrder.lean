import CallContract.Proofs.Values.DistinctKeys

/-!
# The strict order of values

`>` is a strict order on all values, and it cannot tell equal values apart. It is total where it
gives an answer, if no NaN occurs and keys are distinct: the two directions of a comparison are then
each other's mirror image (`compare_swap`), no comparison is left undecided, and one that comes out
even is of equal values.

**Results.**
* `exceeds_irrefl`, `exceeds_asymm`: no value exceeds itself or one that exceeds it.
* `compare_swap`: a comparison from the other side.
* `beq_of_compare`: what compares as even is equal.
* `gt_isStrictOrder`: the laws of `>` together.
-/
namespace CallContract

theorem Number.compare?_swap (a b : Number) :
    b.compare? a = (a.compare? b).map Ordering.swap := by
  cases a <;> cases b <;> simp [compare?, Int.compare_swap]

namespace Value

/-! ## Irreflexivity and asymmetry -/

theorem compareItems_self_ne_gt {items : List Value} (h : ∀ v ∈ items, ¬ Exceeds v v) :
    compareItems items items ≠ .decided .gt := by
  induction items with
  | nil => exact compareItems_nil_ne_gt []
  | cons v items ih =>
    obtain ⟨hv, hs⟩ := List.forall_mem_cons.1 h
    rw [Ne, compareItems_cons_eq_gt]
    rintro (⟨-, hgt⟩ | hgt)
    · exact ih hs hgt
    · exact hv hgt

theorem exceeds_irrefl (a : Value) : ¬ Exceeds a a := by
  induction a using inductionOnParts with
  | h a ih =>
    intro h
    cases h with
    | str h => rw [Std.compare_self] at h; cases h
    | list h => exact compareItems_self_ne_gt ih h
    | tuple h => exact compareItems_self_ne_gt ih h
    | number hv hw h =>
      cases hv.symm.trans hw
      rename_i m
      cases m <;> simp [Number.compare?] at h

theorem exceeds_asymm {a b : Value} (h : Exceeds a b) : ¬ Exceeds b a :=
  fun h' => exceeds_irrefl a (exceeds_trans h h')

theorem not_beq_swap_of_exceeds {a b : Value} (h : Exceeds a b) : ¬ b == a :=
  fun he => exceeds_irrefl a (exceeds_of_exceeds_of_beq h he)

/-! ## Comparison from the other side -/

def Relation.swap : Relation → Relation
  | .decided o => .decided o.swap
  | .undecided => .undecided
  | .unorderable => .unorderable

theorem compareItems_swap {xs ys : List Value}
    (h : ∀ x ∈ xs, ∀ y ∈ ys, (x == y ↔ y == x) ∧ compare y x = (compare x y).swap) :
    compareItems ys xs = (compareItems xs ys).swap := by
  induction xs generalizing ys with
  | nil => cases ys <;> simp [compareItems, Relation.swap, Nat.compare_swap]
  | cons x xs ih =>
    cases ys with
    | nil => simp [compareItems, Relation.swap, Nat.compare_swap]
    | cons y ys =>
      obtain ⟨hbeq, hcompare⟩ := h x List.mem_cons_self y List.mem_cons_self
      have hrest := ih fun a ha b hb =>
        h a (List.mem_cons_of_mem _ ha) b (List.mem_cons_of_mem _ hb)
      rw [compareItems, compareItems]
      by_cases he : x == y
      · rw [if_pos he, if_pos (hbeq.1 he), hrest]
      · rw [if_neg he, if_neg fun h' => he (hbeq.2 h'), hcompare]

theorem compare_swap {a b : Value} (ha : a.DistinctKeys) (hb : b.DistinctKeys) :
    compare b a = (compare a b).swap := by
  induction a using inductionOnParts generalizing b with
  | h a ih =>
    have step {x y : Value} (hx : x ∈ a.parts) (hy : y ∈ b.parts) :
        (x == y ↔ y == x) ∧ compare y x = (compare x y).swap :=
      ⟨beq_comm_of_distinctKeys (ha.part hx) (hb.part hy), ih x hx (ha.part hx) (hb.part hy)⟩
    rw [compare.eq_def a b]
    split
    · rw [compare]
      exact congrArg Relation.decided Std.OrientedCmp.eq_swap
    · rw [compare]
      exact compareItems_swap fun x hx y hy => step hx hy
    · rw [compare]
      exact compareItems_swap fun x hx y hy => step hx hy
    · rename_i hstr hlist htuple
      rw [compare.eq_def b a]
      split
      · exact (hstr _ _ rfl rfl).elim
      · exact (hlist _ _ rfl rfl).elim
      · exact (htuple _ _ rfl rfl).elim
      · cases a.number? with
        | none => cases b.number? <;> rfl
        | some m =>
          cases b.number? with
          | none => rfl
          | some n =>
            simp only [Number.compare?_swap m n]
            cases m.compare? n <;> rfl

/-! ## Even and undecided comparisons -/

/-- An unequal pair is passed on to the comparison of its own values, so it is not what makes two
lists even. -/
theorem forall₂_beq_of_compareItems {xs ys : List Value}
    (h : ∀ x ∈ xs, ∀ y, compare x y = .decided .eq → x == y)
    (hxy : compareItems xs ys = .decided .eq) : List.Forall₂ (· == ·) xs ys := by
  induction xs generalizing ys with
  | nil =>
    cases ys with
    | nil => exact .nil
    | cons y ys => simp [compareItems] at hxy
  | cons x xs ih =>
    obtain ⟨hx, hxs⟩ := List.forall_mem_cons.1 h
    cases ys with
    | nil => simp [compareItems] at hxy
    | cons y ys =>
      rw [compareItems] at hxy
      split at hxy
      · rename_i he
        exact .cons he (ih hxs hxy)
      · rename_i hne
        exact absurd (hx y hxy) hne

theorem beq_of_compare {a b : Value} (h : compare a b = .decided .eq) : a == b := by
  induction a using inductionOnParts generalizing b with
  | h a ih =>
    have step {x : Value} (hx : x ∈ a.parts) (y : Value) (hxy : compare x y = .decided .eq) :
        x == y := ih x hx hxy
    rw [beq_iff_equals]
    rw [compare.eq_def a b] at h
    split at h
    · rw [Std.LawfulEqCmp.eq_of_compare (Relation.decided.inj h)]
      exact .str _
    · exact .list (forall₂_beq_of_compareItems (fun x hx => step hx) h)
    · exact .tuple (forall₂_beq_of_compareItems (fun x hx => step hx) h)
    · split at h
      · rename_i m n hv hw
        split at h
        · rename_i o ho
          cases h
          obtain ⟨rfl, hm⟩ := Number.compare?_eq_some_eq.1 ho
          exact .number hv hw hm
        · cases h
      · cases h

theorem compareItems_ne_undecided {xs ys : List Value}
    (h : ∀ x ∈ xs, ∀ y ∈ ys, compare x y ≠ .undecided) :
    compareItems xs ys ≠ .undecided := by
  induction xs generalizing ys with
  | nil => cases ys <;> simp [compareItems]
  | cons x xs ih =>
    cases ys with
    | nil => simp [compareItems]
    | cons y ys =>
      rw [compareItems]
      split
      · exact ih fun a ha b hb => h a (List.mem_cons_of_mem _ ha) b (List.mem_cons_of_mem _ hb)
      · exact h x List.mem_cons_self y List.mem_cons_self

theorem compare_ne_undecided {a b : Value} (ha : a.NaNFree) (hb : b.NaNFree) :
    compare a b ≠ .undecided := by
  induction a using inductionOnParts generalizing b with
  | h a ih =>
    have step {x y : Value} (hx : x ∈ a.parts) (hy : y ∈ b.parts) :
        compare x y ≠ .undecided := ih x hx (ha.part hx) (hb.part hy)
    rw [compare.eq_def a b]
    split
    · exact Relation.noConfusion
    · exact compareItems_ne_undecided fun x hx y hy => step hx hy
    · exact compareItems_ne_undecided fun x hx y hy => step hx hy
    · split
      · rename_i m n hv hw
        split
        · exact Relation.noConfusion
        · rename_i hmn
          rcases (Number.compare?_eq_none_iff m n).1 hmn with rfl | rfl
          · exact absurd hv ha.number?_ne_nan
          · exact absurd hw hb.number?_ne_nan
      · exact Relation.noConfusion

/-! ## The laws together -/

/-- One of three statements holds, and only one. -/
def ExactlyOne (p q r : Prop) : Prop := (p ∧ ¬ q ∧ ¬ r) ∨ (¬ p ∧ q ∧ ¬ r) ∨ (¬ p ∧ ¬ q ∧ r)

theorem gt?_isSome_iff {a b : Value} : (a.gt? b).isSome = true ↔ compare a b ≠ .unorderable := by
  rw [Option.isSome_iff_ne_none, Ne, gt?_eq_none_iff]

theorem gt?_isSome_swap {a b : Value} (ha : a.DistinctKeys) (hb : b.DistinctKeys) :
    (a.gt? b).isSome = (b.gt? a).isSome := by
  rw [Bool.eq_iff_iff, gt?_isSome_iff, gt?_isSome_iff, compare_swap ha hb]
  cases compare a b <;> simp [Relation.swap]

/-- Where there is an answer, one value is greater or the two are equal. -/
theorem exceeds_or_exceeds_or_beq {a b : Value} (ha : a.NaNFree) (hb : b.NaNFree)
    (ha' : a.DistinctKeys) (hb' : b.DistinctKeys) (h : (a.gt? b).isSome = true) :
    Exceeds a b ∨ Exceeds b a ∨ a == b := by
  rw [gt?_isSome_iff] at h
  rw [← compare_eq_gt_iff, ← compare_eq_gt_iff, compare_swap ha' hb']
  cases hc : compare a b with
  | unorderable => exact absurd hc h
  | undecided => exact absurd hc (compare_ne_undecided ha hb)
  | decided o =>
    cases o with
    | gt => exact .inl rfl
    | lt => exact .inr (.inl rfl)
    | eq => exact .inr (.inr (beq_of_compare hc))

/-- `>` is a strict order that fits `==`, whatever the values. Without NaN and repeated keys it has
an answer in both directions or in none, and where it has one the order is total. -/
theorem gt_isStrictOrder :
    (∀ a : Value, a.gt? a ≠ some true) ∧
    (∀ a b c : Value, a.gt? b = some true → b.gt? c = some true → a.gt? c = some true) ∧
    (∀ a b c : Value, a.gt? b = some true → b == c → a.gt? c = some true) ∧
    (∀ a b c : Value, a == b → b.gt? c = some true → a.gt? c = some true) ∧
    (∀ a b : Value, a.gt? b = some true → ¬ a == b ∧ ¬ b == a ∧ b.gt? a ≠ some true) ∧
    (∀ a b : Value, a.NaNFree → b.NaNFree → a.DistinctKeys → b.DistinctKeys →
      (a.gt? b).isSome = (b.gt? a).isSome ∧
      ((a.gt? b).isSome = true →
        ExactlyOne (a.gt? b = some true) (b.gt? a = some true) (a == b))) := by
  simp only [Ne, gt?_eq_some_true_iff]
  refine ⟨exceeds_irrefl, fun _ _ _ => exceeds_trans, fun _ _ _ => exceeds_of_exceeds_of_beq,
    fun _ _ _ => exceeds_of_beq_of_exceeds, ?_, ?_⟩
  · intro a b h
    exact ⟨not_beq_of_exceeds h, not_beq_swap_of_exceeds h, exceeds_asymm h⟩
  · intro a b ha hb ha' hb'
    refine ⟨gt?_isSome_swap ha' hb', fun h => ?_⟩
    rcases exceeds_or_exceeds_or_beq ha hb ha' hb' h with hab | hba | he
    · exact .inl ⟨hab, exceeds_asymm hab, not_beq_of_exceeds hab⟩
    · exact .inr (.inl ⟨exceeds_asymm hba, hba, not_beq_swap_of_exceeds hba⟩)
    · exact .inr (.inr ⟨fun h => not_beq_of_exceeds h he,
        fun h => not_beq_swap_of_exceeds h he, he⟩)

/-- Two lists that begin with equal dicts are decided by the numbers behind these. -/
theorem lists_of_equal_dicts_ordered :
    let x : Value := .list [.dict [(.str "a", .int 1)], .float ⟨0x4004000000000000⟩]
    let y : Value := .list [.dict [(.str "a", .bool true)], .int 2]
    let z : Value := .list [.dict [(.str "a", .int 1)], .bool true]
    let z' : Value := .list [.dict [(.str "a", .bool true)], .int 1]
    x.gt? y = some true ∧ y.gt? z = some true ∧ x.gt? z = some true ∧ z == z' ∧ z' == z ∧
      y.gt? z' = some true ∧ z'.gt? (.list []) = some true ∧ ¬ x == y ∧
      y.gt? x ≠ some true ∧ x.NaNFree ∧ z.NaNFree ∧ x.DistinctKeys ∧ z.DistinctKeys ∧
      ExactlyOne (x.gt? z = some true) (z.gt? x = some true) (x == z) := by
  intro x y z z'
  obtain ⟨-, htrans, hright, hleft, hne, htotal⟩ := gt_isStrictOrder
  have hxy : x.gt? y = some true := by decide +kernel
  have hyz : y.gt? z = some true := by decide +kernel
  have hxz := htrans x y z hxy hyz
  have hzz' : z == z' := by decide +kernel
  have hz'z : z' == z := by decide +kernel
  have hyz' := hright y z z' hyz hzz'
  have hz' := hleft z' z (.list []) hz'z (by decide +kernel)
  obtain ⟨hxy', -, hyx⟩ := hne x y hxy
  have leaf {v : Value} (hv : v.number? ≠ some .nan) (hp : v.parts = [])
      (hd : ∀ es, v ≠ .dict es) : v.NaNFree ∧ v.DistinctKeys :=
    ⟨nanFree_of_parts hv (by simp [hp]),
      distinctKeys_of_parts (fun es he => absurd he (hd es)) (by simp [hp])⟩
  have hdict : NaNFree (.dict [(.str "a", .int 1)]) ∧
      DistinctKeys (.dict [(.str "a", .int 1)]) := by
    have hkey := leaf (v := .str "a") (by decide) rfl (by simp)
    have hvalue := leaf (v := .int 1) (by decide +kernel) rfl (by simp)
    refine ⟨nanFree_of_parts (by decide) ?_, distinctKeys_of_parts ?_ ?_⟩
    · simp [parts, hkey, hvalue]
    · intro es he
      cases he
      simp
    · simp [parts, hkey, hvalue]
  have hlist {v : Value} (hv : v.NaNFree ∧ v.DistinctKeys) :
      NaNFree (.list [.dict [(.str "a", .int 1)], v]) ∧
        DistinctKeys (.list [.dict [(.str "a", .int 1)], v]) := by
    refine ⟨nanFree_of_parts (by simp [number?]) ?_, distinctKeys_of_parts (by simp) ?_⟩ <;>
      simp [parts, hdict, hv]
  have hx := hlist (leaf (v := .float ⟨0x4004000000000000⟩) (by decide +kernel) rfl (by simp))
  have hz := hlist (leaf (v := .bool true) (by decide +kernel) rfl (by simp))
  exact ⟨hxy, hyz, hxz, hzz', hz'z, hyz', hz', hxy', hyx, hx.1, hz.1, hx.2, hz.2,
    (htotal x z hx.1 hz.1 hx.2 hz.2).2 (by rw [hxz]; rfl)⟩

end Value
end CallContract
