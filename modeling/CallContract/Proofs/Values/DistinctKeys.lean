import CallContract.Proofs.Values.Order

/-!
# Values with distinct keys

A dict equals another of the same size if each of its entries is found there, so a dict with a
repeated key may equal one that does not equal it. Where no dict has two entries of equal keys,
entries found are found once each, and by their number all of the other dict are: equality holds
in both directions, at any depth.

**Results.**
* `exists_perm_forall₂`: of two lists of one size, what each element of the first finds for itself
  alone is all of the second, so that they pair off.
* `exists_perm_matches`: hence the entries of equal dicts do.
* `beq_symm`: equality is symmetric where keys are distinct.
-/
namespace CallContract
namespace Value

/-! ## What occurs in a value -/

/-- The first value occurs in the second, at any depth; every value occurs in itself. -/
inductive Within : Value → Value → Prop where
  | self (v : Value) : Within v v
  | part {u w v : Value} (hw : w ∈ v.parts) (h : Within u w) : Within u v

/-- No NaN occurs in the value. -/
def NaNFree (v : Value) : Prop := ∀ x : Binary64, Within (.float x) v → x.isNaN = false

/-- No dict that occurs in the value has two entries of equal keys. -/
def DistinctKeys (v : Value) : Prop :=
  ∀ entries, Within (.dict entries) v → entries.Pairwise fun e o => ¬ e.1 == o.1 ∧ ¬ o.1 == e.1

theorem NaNFree.part {v w : Value} (h : v.NaNFree) (hw : w ∈ v.parts) : w.NaNFree :=
  fun x hx => h x (.part hw hx)

theorem DistinctKeys.part {v w : Value} (h : v.DistinctKeys) (hw : w ∈ v.parts) :
    w.DistinctKeys :=
  fun entries he => h entries (.part hw he)

theorem NaNFree.number?_ne_nan {v : Value} (h : v.NaNFree) : v.number? ≠ some .nan := by
  intro hn
  cases v with
  | bool b => cases hn
  | int n => cases hn
  | float x =>
    have hx := h x (.self _)
    rw [number?, Option.some.injEq, Number.ofBinary64, hx, if_neg Bool.false_ne_true] at hn
    split at hn
    · cases hn
    · split at hn <;> cases hn
  | _ => cases hn

theorem nanFree_of_parts {v : Value} (hv : v.number? ≠ some .nan)
    (h : ∀ w ∈ v.parts, w.NaNFree) : v.NaNFree := by
  intro x hx
  cases hx with
  | self =>
    rw [Bool.eq_false_iff]
    exact fun hn => hv (by rw [number?, Number.ofBinary64, if_pos hn])
  | part hw hx => exact h _ hw x hx

theorem distinctKeys_of_parts {v : Value}
    (hv : ∀ entries, v = .dict entries →
      entries.Pairwise fun e o => ¬ e.1 == o.1 ∧ ¬ o.1 == e.1)
    (h : ∀ w ∈ v.parts, w.DistinctKeys) : v.DistinctKeys := by
  intro entries he
  cases he with
  | self => exact hv entries rfl
  | part hw he => exact h _ hw entries he

theorem key_mem_parts {entries : List (Value × Value)} {e : Value × Value} (he : e ∈ entries) :
    e.1 ∈ (dict entries).parts :=
  List.mem_append_left _ (List.mem_map_of_mem he)

theorem value_mem_parts {entries : List (Value × Value)} {e : Value × Value} (he : e ∈ entries) :
    e.2 ∈ (dict entries).parts :=
  List.mem_append_right _ (List.mem_map_of_mem he)

/-! ## Pairing off -/

/-- Where each element on the left has one of its own on the right and there are no more of these,
the two lists pair off, the right one in some order. -/
theorem exists_perm_forall₂ {α β : Type} {R : α → β → Prop} {l : List α} {m : List β}
    (hlen : m.length ≤ l.length) (hex : ∀ a ∈ l, ∃ b ∈ m, R a b)
    (hown : l.Pairwise fun a a' => ∀ b, R a b → ¬ R a' b) :
    ∃ m', m'.Perm m ∧ List.Forall₂ R l m' := by
  induction l generalizing m with
  | nil =>
    obtain rfl := List.eq_nil_of_length_eq_zero (Nat.le_zero.1 hlen)
    exact ⟨[], .nil, .nil⟩
  | cons a l ih =>
    obtain ⟨⟨b, hb, hab⟩, hex⟩ := List.forall_mem_cons.1 hex
    obtain ⟨hown, hrest⟩ := List.pairwise_cons.1 hown
    obtain ⟨before, behind, rfl⟩ := List.append_of_mem hb
    -- what the others have is not `b`, so it is still there without `b`
    have hothers : ∀ a' ∈ l, ∃ c ∈ before ++ behind, R a' c := by
      intro a' ha'
      obtain ⟨c, hc, hac⟩ := hex a' ha'
      have hne : c ≠ b := fun he => hown a' ha' b hab (he ▸ hac)
      refine ⟨c, ?_, hac⟩
      simpa [hne] using hc
    have hlen' : (before ++ behind).length ≤ l.length := by
      simp only [List.length_append, List.length_cons] at hlen ⊢
      omega
    obtain ⟨m', hp, hm⟩ := ih hlen' hothers hrest
    exact ⟨b :: m', (hp.cons b).trans List.perm_middle.symm, .cons hab hm⟩

theorem exists_of_forall₂_right {α β : Type} {R : α → β → Prop} {l : List α} {m : List β}
    (h : List.Forall₂ R l m) : ∀ b ∈ m, ∃ a ∈ l, R a b := by
  induction h with
  | nil => simp
  | cons hab _ ih =>
    refine List.forall_mem_cons.2 ⟨⟨_, List.mem_cons_self, hab⟩, fun b hb => ?_⟩
    obtain ⟨a, ha, h⟩ := ih b hb
    exact ⟨a, List.mem_cons_of_mem _ ha, h⟩

/-- An entry of a dict and the one that it is found as in another. -/
def Matches (e o : Value × Value) : Prop := e.1 == o.1 ∧ o.1 == e.1 ∧ e.2 == o.2

/-- The entries of equal dicts pair off if the keys on the left are distinct and their equality
holds in both directions. -/
theorem exists_perm_matches {entries others : List (Value × Value)}
    (hkeys : entries.Pairwise fun e o => ¬ e.1 == o.1 ∧ ¬ o.1 == e.1)
    (hsymm : ∀ e ∈ entries, ∀ k : Value, e.1 == k → k == e.1)
    (hl : entries.length = others.length)
    (h : ∀ e ∈ entries, ∃ o ∈ others, e.1 == o.1 ∧ e.2 == o.2) :
    ∃ others', others'.Perm others ∧ List.Forall₂ Matches entries others' := by
  refine exists_perm_forall₂ (Nat.le_of_eq hl.symm) (fun e he => ?_) (hkeys.imp ?_)
  · obtain ⟨o, ho, hk, hv⟩ := h e he
    exact ⟨o, ho, hk, hsymm e he _ hk, hv⟩
  · intro e e' hne o hm hm'
    exact hne.1 (beq_trans hm.1 hm'.2.1)

/-! ## Symmetry -/

theorem forall₂_beq_symm {xs ys : List Value} (h : ∀ x ∈ xs, ∀ y : Value, x == y → y == x)
    (hxy : List.Forall₂ (· == ·) xs ys) : List.Forall₂ (· == ·) ys xs := by
  induction hxy with
  | nil => exact .nil
  | cons hab _ ih =>
    obtain ⟨hx, hxs⟩ := List.forall_mem_cons.1 h
    exact .cons (hx _ hab) (ih hxs)

/-- Equality holds in both directions if no dict on the left repeats a key. -/
theorem beq_symm {a b : Value} (ha : a.DistinctKeys) (hab : a == b) : b == a := by
  induction a using inductionOnParts generalizing b with
  | h a ih =>
    have step {x : Value} (hx : x ∈ a.parts) (y : Value) (hxy : x == y) : y == x :=
      ih x hx (ha.part hx) hxy
    rw [beq_iff_equals] at hab ⊢
    cases hab with
    | none => exact .none
    | str s => exact .str s
    | number hv hw hm => exact .number hw hv hm
    | list h => exact .list (forall₂_beq_symm (fun x hx => step hx) h)
    | tuple h => exact .tuple (forall₂_beq_symm (fun x hx => step hx) h)
    | dict hl h =>
      rename_i entries others
      obtain ⟨others', hp, hm⟩ := exists_perm_matches (ha entries (.self _))
        (fun e he => step (key_mem_parts he)) hl h
      refine .dict hl.symm fun o ho => ?_
      obtain ⟨e, he, -, hk, hv⟩ := exists_of_forall₂_right hm o (hp.mem_iff.2 ho)
      exact ⟨e, he, hk, step (value_mem_parts he) _ hv⟩

theorem beq_comm_of_distinctKeys {a b : Value} (ha : a.DistinctKeys) (hb : b.DistinctKeys) :
    a == b ↔ b == a :=
  ⟨beq_symm ha, beq_symm hb⟩

end Value
end CallContract
