import CallContract.Proofs.Checks.Growth
import CallContract.Proofs.Values.Equality

/-!
# Checks and equal values

A check that asks for no type cannot tell equal values apart, although the two may have numbers of
different types in them and the entries of their dicts in different orders, so that it stops at
different elements of them and for different reasons. What carries this through the nesting is a
relation that passes from values to their elements and holds in both directions (`Alike`): equality
without repeated keys on the left.

**Repeated keys.** Without the condition on keys it fails. A dict that repeats a key may equal one
with a key of its own, and that key alone decides.

**Results.**
* `Alike.indexed`, `Alike.elements`: the elements of alike values are alike in pairs, the keys of
  dicts in some order.
* `Alike.exceeds`: alike values stand in the same order.
* `equal_values_pass_alike`: a check without types passes on both of two equal values or on neither.
-/
namespace CallContract

namespace Value

/-! ## Alike values -/

/-- Equal values of which the first, and hence the second, repeats no key. -/
def Alike (a b : Value) : Prop := a.DistinctKeys ∧ a == b

namespace Alike

variable {a b c d : Value}

theorem symm (h : a.Alike b) : b.Alike a :=
  ⟨distinctKeys_of_beq h.1 h.2, beq_symm h.1 h.2⟩

theorem exceeds (hab : a.Alike b) (hcd : c.Alike d) (h : Exceeds a c) : Exceeds b d :=
  exceeds_of_beq_of_exceeds hab.symm.2 (exceeds_of_exceeds_of_beq h hcd.2)

theorem ofChar (c : Char) : (ofChar c).Alike (ofChar c) :=
  ⟨distinctKeys_of_parts_eq_nil rfl, beq_iff_equals.2 (.str _)⟩

theorem of_forall₂ {xs ys : List Value} (hd : ∀ x ∈ xs, x.DistinctKeys)
    (h : List.Forall₂ (· == ·) xs ys) : List.Forall₂ Alike xs ys :=
  (List.forall₂_and_left xs ys).2 ⟨hd, h⟩

/-- Items at one place are alike. -/
theorem indexed {xs : List Value} (h : a.Alike b) (ha : a.Indexed xs) :
    ∃ ys, b.Indexed ys ∧ List.Forall₂ Alike xs ys := by
  obtain ⟨hd, he⟩ := h
  rw [beq_iff_equals] at he
  cases ha with
  | str s =>
    cases he with
    | str =>
      refine ⟨_, .str s, List.forall₂_same.2 fun x hx => ?_⟩
      obtain ⟨c, -, rfl⟩ := List.mem_map.1 hx
      exact ofChar c
    | number hv => cases hv
  | list items =>
    cases he with
    | list hi => exact ⟨_, .list _, of_forall₂ (fun x hx => hd.part hx) hi⟩
    | number hv => cases hv
  | tuple items =>
    cases he with
    | tuple hi => exact ⟨_, .tuple _, of_forall₂ (fun x hx => hd.part hx) hi⟩
    | number hv => cases hv

/-- Elements are alike in pairs; those of dicts are keys, and have no places. -/
theorem elements {xs : List Value} (h : a.Alike b) (ha : a.elements? = some xs) :
    ∃ ys ys', b.elements? = some ys ∧ ys'.Perm ys ∧ List.Forall₂ Alike xs ys' := by
  have of_indexed (hi : a.Indexed xs) :
      ∃ ys ys', b.elements? = some ys ∧ ys'.Perm ys ∧ List.Forall₂ Alike xs ys' := by
    obtain ⟨ys, hb, hxy⟩ := h.indexed hi
    exact ⟨ys, ys, hb.elements?_eq.1, .refl ys, hxy⟩
  cases a with
  | str s => cases ha; exact of_indexed (.str s)
  | list items => cases ha; exact of_indexed (.list _)
  | tuple items => cases ha; exact of_indexed (.tuple _)
  | dict entries =>
    cases ha
    obtain ⟨hd, he⟩ := h
    have hequals := beq_iff_equals.1 he
    cases hequals with
    | dict =>
      obtain ⟨others', hp, hm⟩ := exists_perm_matches_of_beq hd he
      refine ⟨_, others'.map (·.1), rfl, hp.map _, of_forall₂ ?_ ?_⟩
      · exact List.forall_mem_map.2 fun e he => hd.part (key_mem_parts he)
      · rw [List.forall₂_map_left_iff, List.forall₂_map_right_iff]
        exact hm.imp fun e o heo => heo.1
    | number hv => cases hv
  | _ => cases ha

end Alike

theorem indexed_of_isIndexable {v : Value} {items : List Value} (hi : v.isIndexable = true)
    (he : v.elements? = some items) : v.Indexed items := by
  cases v with
  | str s => cases he; exact .str s
  | list items => cases he; exact .list _
  | tuple items => cases he; exact .tuple _
  | _ => cases hi

end Value

namespace Check

open Value (Alike)

/-! ## Checks without types -/

/-- No type check occurs in the check, at any depth. -/
inductive IsTypeFree : Check → Prop where
  | nonEmpty : IsTypeFree .nonEmpty
  | monotonicIncreasing : IsTypeFree .monotonicIncreasing
  | positive : IsTypeFree .positive
  | eachSatisfies {inner : Check} (h : IsTypeFree inner) : IsTypeFree (.eachSatisfies inner)

theorem rises_of_alike {x y x' y' : Value} (hx : x.Alike x') (hy : y.Alike y') (h : Rises x y) :
    Rises x' y' :=
  Value.gt?_eq_some_true_iff.2 (hy.exceeds hx (Value.gt?_eq_some_true_iff.1 h))

theorem holds_of_alike {k : Check} (hk : k.IsTypeFree) {a b : Value} (hab : a.Alike b)
    (h : k.Holds a) : k.Holds b := by
  induction hk generalizing a b with
  | nonEmpty =>
    obtain ⟨xs, hx, hne⟩ := h
    obtain ⟨ys, ys', hy, hp, hxy⟩ := hab.elements hx
    refine ⟨ys, hy, ?_⟩
    rintro rfl
    rw [hp.eq_nil, List.forall₂_nil_right_iff] at hxy
    exact hne hxy
  | monotonicIncreasing =>
    obtain ⟨xs, hx, hshort | ⟨hi, hp⟩⟩ := h
    · obtain ⟨ys, ys', hy, hp, hxy⟩ := hab.elements hx
      refine ⟨ys, hy, .inl ?_⟩
      rwa [← hp.length_eq, ← hxy.length_eq]
    · obtain ⟨ys, hb, hxy⟩ := hab.indexed (Value.indexed_of_isIndexable hi hx)
      obtain ⟨hy, hib⟩ := hb.elements?_eq
      refine ⟨ys, hy, .inr ⟨hib, ?_⟩⟩
      refine Value.pairwise_of_forall₂ (S := Rises) ?_ hxy hp
      exact fun x y x' y' => rises_of_alike
  | positive =>
    have hzero : (Value.int 0).Alike (.int 0) :=
      ⟨Value.distinctKeys_of_parts_eq_nil rfl, Value.beq_iff_equals.2 (.number rfl rfl nofun)⟩
    rw [Holds, ← Value.gt?_zero_iff_isPositive, Value.gt?_eq_some_true_iff] at h ⊢
    exact hab.exceeds hzero h
  | eachSatisfies _ ih =>
    obtain ⟨xs, hx, hall⟩ := h
    obtain ⟨ys, ys', hy, hp, hxy⟩ := hab.elements hx
    refine ⟨ys, hy, fun y hm => ?_⟩
    obtain ⟨x, hm, hxy⟩ := Value.exists_of_forall₂_right hxy y (hp.mem_iff.2 hm)
    exact ih hxy (hall x hm)

/-- A check built without type checks passes on both of two equal values or on neither, if no dict
in the first repeats a key. -/
theorem equal_values_pass_alike {a b : Value} (ha : a.DistinctKeys) (hab : a == b) {k : Check}
    (hk : k.IsTypeFree) : k.evaluate a = .ok .pass ↔ k.evaluate b = .ok .pass := by
  have h : a.Alike b := ⟨ha, hab⟩
  rw [evaluate_eq_pass, evaluate_eq_pass]
  exact ⟨holds_of_alike hk h, holds_of_alike hk h.symm⟩

/-- Keys above zero pass in either order and in either type. A dict that repeats a key passes where
an equal one with a text for a key does not, and an integer is of a type that the equal fraction is
not of. -/
theorem reordered_entries_pass_alike :
    let one : Value := .float ⟨0x3FF0000000000000⟩
    let half : Value := .float ⟨0x3FE0000000000000⟩
    let a : Value := .list [.dict [(.bool true, .none), (half, .str "x")]]
    let b : Value := .list [.dict [(half, .str "x"), (one, .none)]]
    let k : Check := .eachSatisfies (.eachSatisfies .positive)
    let x : Value := .dict [(.int 1, .int 1), (.bool true, one)]
    let y : Value := .dict [(one, .int 1), (.str "z", .list [])]
    a.DistinctKeys ∧ a == b ∧ k.IsTypeFree ∧ k.evaluate a = .ok .pass ∧
      k.evaluate b = .ok .pass ∧
      x == y ∧ (eachSatisfies .positive).evaluate x = .ok .pass ∧
      (eachSatisfies .positive).evaluate y ≠ .ok .pass ∧
      .int 1 == one ∧ (typeEquals .int).evaluate (.int 1) = .ok .pass ∧
      (typeEquals .int).evaluate one ≠ .ok .pass := by
  intro one half a b k x y
  have leaf {v : Value} (h : v.parts = []) : v.DistinctKeys := Value.distinctKeys_of_parts_eq_nil h
  have hdict : Value.DistinctKeys (.dict [(.bool true, .none), (half, .str "x")]) := by
    refine Value.distinctKeys_of_parts ?_ ?_
    · intro entries he
      obtain rfl := Value.dict.inj he
      exact List.pairwise_pair.2 (by decide +kernel)
    · simpa [Value.parts] using ⟨leaf rfl, leaf rfl, leaf rfl, leaf rfl⟩
  have hlist (entries : List (Value × Value)) : a ≠ .dict entries := by simp [a]
  have ha : a.DistinctKeys :=
    Value.distinctKeys_of_parts (fun entries he => absurd he (hlist entries))
      (List.forall_mem_singleton.2 hdict)
  have hab : a == b := by decide +kernel
  have hk : k.IsTypeFree := .eachSatisfies (.eachSatisfies .positive)
  have hhalf : half.IsPositive := Value.gt?_zero_iff_isPositive.1 (by decide +kernel)
  have hpass : k.evaluate a = .ok .pass := by
    refine evaluate_eq_pass.2 ⟨_, rfl, List.forall_mem_singleton.2 ⟨_, rfl, ?_⟩⟩
    exact List.forall_mem_cons.2 ⟨rfl, List.forall_mem_singleton.2 hhalf⟩
  refine ⟨ha, hab, hk, hpass, (equal_values_pass_alike ha hab hk).1 hpass, by decide +kernel, ?_,
    ?_, by decide +kernel, rfl, ?_⟩
  · refine evaluate_eq_pass.2 ⟨_, rfl, List.forall_mem_cons.2 ⟨?_, List.forall_mem_singleton.2 rfl⟩⟩
    exact Value.gt?_zero_iff_isPositive.1 (by decide +kernel)
  · rw [Ne, evaluate_eq_pass]
    rintro ⟨items, he, hall⟩
    cases he
    exact hall (.str "z") (by simp)
  · rw [Ne, evaluate_eq_pass]
    intro h
    have h : Value.IsOf (.float _) .int := h
    cases h

end Check
end CallContract
