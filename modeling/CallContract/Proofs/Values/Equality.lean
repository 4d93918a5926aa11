import CallContract.Proofs.Values.DistinctKeys

/-!
# Equality of values as a relation

`==` is transitive on all values. It falls short of an equivalence in two places. A NaN equals
nothing, so that exactly the values without one equal themselves; and a dict that repeats a key may
equal another that does not equal it. Where keys are distinct on the left, `==` is symmetric, and
they are distinct on the right as well.

**Parts.** What a law says of a value it says of its parts first: the parts of equal values are
equal in pairs, on the left always (`exists_beq_of_mem_parts_left`), on the right where keys are
distinct on the left (`exists_beq_of_mem_parts_right`).

**Results.**
* `nanFree_of_beq`, `beq_self_iff_nanFree`: what equals anything has no NaN in it.
* `distinctKeys_of_beq`: distinct keys are passed on from left to right.
* `beq_isPartialEquivalence`: the laws of `==` together.
-/
namespace CallContract
namespace Value

/-! ## Parts of equal values -/

theorem exists_of_forall₂_left {α β : Type} {R : α → β → Prop} {l : List α} {m : List β}
    (h : List.Forall₂ R l m) : ∀ a ∈ l, ∃ b ∈ m, R a b :=
  exists_of_forall₂_right h.flip

theorem parts_eq_nil_of_number? {v : Value} {m : Number} (h : v.number? = some m) :
    v.parts = [] := by
  cases v <;> first | rfl | cases h

theorem mem_parts_dict {entries : List (Value × Value)} {x : Value} :
    x ∈ (dict entries).parts ↔ ∃ e ∈ entries, x = e.1 ∨ x = e.2 := by
  rw [parts, List.mem_append, List.mem_map, List.mem_map]
  refine ⟨?_, ?_⟩
  · rintro (⟨e, he, rfl⟩ | ⟨e, he, rfl⟩)
    · exact ⟨e, he, .inl rfl⟩
    · exact ⟨e, he, .inr rfl⟩
  · rintro ⟨e, he, rfl | rfl⟩
    · exact .inl ⟨e, he, rfl⟩
    · exact .inr ⟨e, he, rfl⟩

theorem exists_beq_of_mem_parts_left {v w x : Value} (h : v == w) (hx : x ∈ v.parts) :
    ∃ y ∈ w.parts, x == y := by
  rw [beq_iff_equals] at h
  cases h with
  | none => cases hx
  | str s => cases hx
  | number hv => rw [parts_eq_nil_of_number? hv] at hx; cases hx
  | list h => exact exists_of_forall₂_left h x hx
  | tuple h => exact exists_of_forall₂_left h x hx
  | dict hl h =>
    obtain ⟨e, he, hxe⟩ := mem_parts_dict.1 hx
    obtain ⟨o, ho, hk, hv⟩ := h e he
    rcases hxe with rfl | rfl
    · exact ⟨o.1, key_mem_parts ho, hk⟩
    · exact ⟨o.2, value_mem_parts ho, hv⟩

theorem exists_perm_matches_of_beq {entries others : List (Value × Value)}
    (hd : (dict entries).DistinctKeys) (h : dict entries == dict others) :
    ∃ others', others'.Perm others ∧ List.Forall₂ Matches entries others' := by
  rw [beq_iff_equals] at h
  cases h with
  | dict hl h =>
    exact exists_perm_matches (hd entries (.self _))
      (fun e he _ => beq_symm (hd.part (key_mem_parts he))) hl h
  | number hv => cases hv

theorem exists_beq_of_mem_parts_right {v w y : Value} (hd : v.DistinctKeys) (h : v == w)
    (hy : y ∈ w.parts) : ∃ x ∈ v.parts, x == y := by
  have hequals := beq_iff_equals.1 h
  cases hequals with
  | none => cases hy
  | str s => cases hy
  | number hv hw => rw [parts_eq_nil_of_number? hw] at hy; cases hy
  | list hitems => exact exists_of_forall₂_right hitems y hy
  | tuple hitems => exact exists_of_forall₂_right hitems y hy
  | dict =>
    obtain ⟨others', hp, hm⟩ := exists_perm_matches_of_beq hd h
    obtain ⟨o, ho, hyo⟩ := mem_parts_dict.1 hy
    obtain ⟨e, he, hk, -, hv⟩ := exists_of_forall₂_right hm o (hp.mem_iff.2 ho)
    rcases hyo with rfl | rfl
    · exact ⟨e.1, key_mem_parts he, hk⟩
    · exact ⟨e.2, value_mem_parts he, hv⟩

/-! ## Reflexivity -/

/-- A value with a NaN in it equals nothing. -/
theorem nanFree_of_beq {v w : Value} (h : v == w) : v.NaNFree := by
  induction v using inductionOnParts generalizing w with
  | h v ih =>
    refine nanFree_of_parts ?_ fun x hx => ?_
    · have hequals := beq_iff_equals.1 h
      cases hequals with
      | number hv hw hm => rw [hv]; simpa using hm
      | _ => simp [number?]
    · obtain ⟨y, -, hxy⟩ := exists_beq_of_mem_parts_left h hx
      exact ih x hx hxy

theorem beq_self_of_nanFree {v : Value} (h : v.NaNFree) : v == v := by
  induction v using inductionOnParts with
  | h v ih =>
    have step {x : Value} (hx : x ∈ v.parts) : x == x := ih x hx (h.part hx)
    have number {m : Number} (hv : v.number? = some m) : Equals v v :=
      .number hv hv fun hm => h.number?_ne_nan (hm ▸ hv)
    rw [beq_iff_equals]
    cases v with
    | none => exact .none
    | bool b => exact number rfl
    | int n => exact number rfl
    | float x => exact number rfl
    | str s => exact .str s
    | list items => exact .list (List.forall₂_same.2 fun x hx => step hx)
    | tuple items => exact .tuple (List.forall₂_same.2 fun x hx => step hx)
    | dict entries =>
      exact .dict rfl fun e he => ⟨e, he, step (key_mem_parts he), step (value_mem_parts he)⟩

theorem beq_self_iff_nanFree {v : Value} : v == v ↔ v.NaNFree :=
  ⟨nanFree_of_beq, beq_self_of_nanFree⟩

/-! ## Distinct keys on both sides -/

theorem pairwise_of_forall₂ {α β : Type} {R : α → β → Prop} {S : α → α → Prop} {T : β → β → Prop}
    (hST : ∀ a a' b b', R a b → R a' b' → S a a' → T b b') {l : List α} {m : List β}
    (h : List.Forall₂ R l m) (hl : l.Pairwise S) : m.Pairwise T := by
  induction h with
  | nil => exact .nil
  | cons hab h ih =>
    obtain ⟨ha, hl⟩ := List.pairwise_cons.1 hl
    refine List.pairwise_cons.2 ⟨fun b' hb' => ?_, ih hl⟩
    obtain ⟨a', ha', hab'⟩ := exists_of_forall₂_right h b' hb'
    exact hST _ _ _ _ hab hab' (ha a' ha')

theorem distinct_of_matches {e e' o o' : Value × Value} (h : Matches e o) (h' : Matches e' o')
    (hne : ¬ e.1 == e'.1 ∧ ¬ e'.1 == e.1) : ¬ o.1 == o'.1 ∧ ¬ o'.1 == o.1 :=
  ⟨fun he => hne.1 (beq_trans h.1 (beq_trans he h'.2.1)),
    fun he => hne.2 (beq_trans h'.1 (beq_trans he h.2.1))⟩

theorem distinctKeys_of_beq {a b : Value} (ha : a.DistinctKeys) (hab : a == b) :
    b.DistinctKeys := by
  induction a using inductionOnParts generalizing b with
  | h a ih =>
    refine distinctKeys_of_parts ?_ fun y hy => ?_
    · rintro others rfl
      have hequals := beq_iff_equals.1 hab
      cases hequals with
      | dict =>
        obtain ⟨others', hp, hm⟩ := exists_perm_matches_of_beq ha hab
        refine (hp.pairwise_iff And.symm).1 (pairwise_of_forall₂ ?_ hm (ha _ (.self _)))
        exact fun _ _ _ _ => distinct_of_matches
      | number hv hw => cases hw
    · obtain ⟨x, hx, hxy⟩ := exists_beq_of_mem_parts_right ha hab hy
      exact ih x hx (ha.part hx) hxy

/-! ## The laws together -/

/-- `==` is case by case what `Equals` says, and it is transitive; what equals itself is what has no
NaN in it; and where no dict on the left repeats a key, it is symmetric, and none does on the
right. -/
theorem beq_isPartialEquivalence :
    (∀ a b : Value, a == b ↔ Equals a b) ∧
    (∀ a b c : Value, a == b → b == c → a == c) ∧
    (∀ v : Value, v == v ↔ v.NaNFree) ∧
    (∀ a b : Value, a.DistinctKeys → a == b → b == a ∧ b.DistinctKeys) :=
  ⟨fun _ _ => beq_iff_equals, fun _ _ _ => beq_trans, fun _ => beq_self_iff_nanFree,
    fun _ _ ha hab => ⟨beq_symm ha hab, distinctKeys_of_beq ha hab⟩⟩

theorem distinctKeys_of_parts_eq_nil {v : Value} (h : v.parts = []) : v.DistinctKeys := by
  refine distinctKeys_of_parts ?_ (by simp [h])
  rintro entries rfl
  rw [List.map_eq_nil_iff.1 (List.append_eq_nil_iff.1 h).1]
  exact .nil

/-- A dict with a repeated key equals one that does not equal it, and by way of that one a third;
without repeated keys equality comes back, from any order of entries and with the numbers written
otherwise. A list with a NaN in a key does not equal itself. -/
theorem repeated_keys_equal_one_way :
    let x : Value := .dict [(.int 1, .int 1), (.bool true, .float ⟨0x3FF0000000000000⟩)]
    let y : Value := .dict [(.float ⟨0x3FF0000000000000⟩, .int 1), (.str "z", .list [])]
    let z : Value := .dict [(.str "z", .list []), (.int 1, .bool true)]
    let u : Value := .dict [(.list [.str "a"], .int 1), (.none, .none)]
    let w : Value := .dict [(.none, .none), (.list [.str "a"], .bool true)]
    x == y ∧ ¬ y == x ∧ y == z ∧ x == z ∧
      u.DistinctKeys ∧ u == w ∧ w == u ∧ w.DistinctKeys ∧
      ¬ NaNFree (.list [.dict [(.float ⟨0x7FF8000000000000⟩, .none)]]) := by
  intro x y z u w
  obtain ⟨-, htrans, hself, hsymm⟩ := beq_isPartialEquivalence
  have hxy : x == y := by decide +kernel
  have hyz : y == z := by decide +kernel
  have leaf {v : Value} (h : v.parts = []) : v.DistinctKeys := distinctKeys_of_parts_eq_nil h
  have hkey : DistinctKeys (.list [.str "a"]) :=
    distinctKeys_of_parts (by simp) (List.forall_mem_singleton.2 (leaf rfl))
  have hu : u.DistinctKeys := by
    refine distinctKeys_of_parts ?_ ?_
    · intro entries he
      obtain rfl := Value.dict.inj he
      exact List.pairwise_pair.2 (by decide +kernel)
    · simp only [u, parts, List.map_cons, List.map_nil, List.cons_append, List.nil_append,
        List.forall_mem_cons, List.not_mem_nil, false_implies, implies_true, and_true]
      exact ⟨hkey, leaf rfl, leaf rfl, leaf rfl⟩
  have huw : u == w := by decide +kernel
  refine ⟨hxy, by decide +kernel, hyz, htrans x y z hxy hyz, hu, huw, hsymm u w hu huw |>.1,
    hsymm u w hu huw |>.2, ?_⟩
  rw [← hself]
  decide +kernel

end Value
end CallContract
