import CallContract.Proofs.Binding.Attribution
import CallContract.Proofs.Signatures.Declarable

/-!
# Signatures extended by an optional parameter

A parameter that calls may leave out, variadic or with a default, is put behind those of a
signature. A call that could be bound before is bound as before, and the new parameter has its
default or, if it is variadic, nothing.

The new parameter takes nothing from such a call because of its place. It stands behind all others,
so none of these collects what it could take: no variadic positional parameter stands before one
filled by position, and none that collects keywords before any. Hence every positional argument
found its own parameter, and so did every keyword.

**Results.**
* `Extends.fits`: a call that fits a signature fits the extended one.
* `Extends.table_eq`: what the extended one binds.
* `bind_of_extended`: both, for binding.
-/
namespace CallContract
namespace Signature

/-- The second signature has one parameter more, and calls may leave that out. -/
structure Extends (s s' : Signature) (p : Param) : Prop where
  params : s'.params = s.params ++ [p]
  optional : p.kind.isVariadic = true ∨ p.default.isSome = true

/-- What a parameter has in a call that leaves it out. -/
def omitted (p : Param) (i : Nat) : List Bound :=
  if p.kind.isVariadic = true then [] else (p.default.map (⟨i, .default, ·⟩)).toList

namespace Extends

variable {s s' : Signature} {p : Param} (h : s.Extends s' p)
include h

/-! ## The new parameter and its place -/

theorem getElem?_self : s'.params[s.params.length]? = some p := by
  rw [h.params, List.getElem?_append_right (Nat.le_refl _), Nat.sub_self]
  rfl

theorem getElem?_of_lt {i : Nat} (hi : i < s.params.length) : s'.params[i]? = s.params[i]? := by
  rw [h.params, List.getElem?_append_left hi]

theorem getElem?_cases {q : Param} {i : Nat} (hq : s'.params[i]? = some q) :
    s.params[i]? = some q ∨ (i = s.params.length ∧ q = p) := by
  have hlen := (List.getElem?_eq_some_iff.1 hq).1
  rw [h.params, List.length_append, List.length_singleton] at hlen
  rcases Nat.lt_or_ge i s.params.length with hlt | hge
  · exact .inl ((h.getElem?_of_lt hlt).symm.trans hq)
  · obtain rfl : i = s.params.length := by omega
    exact .inr ⟨rfl, Option.some.inj (hq.symm.trans h.getElem?_self)⟩

theorem follows {q : Param} (hq : q ∈ s.params) : Follows q p := by
  have := s'.params_follow
  rw [h.params] at this
  exact (pairwise_concat.1 this).2 q hq

theorem name_ne {q : Param} (hq : q ∈ s.params) : q.name ≠ p.name := by
  have := pairwise_name_ne s'.sound
  rw [h.params] at this
  exact (pairwise_concat.1 this).2 q hq

theorem collectsPositional_eq_false (hp : p.kind.rank ≤ ParamKind.varPositional.rank) :
    s.collectsPositional = false := by
  refine List.any_eq_false.2 fun q hq hk => ?_
  obtain ⟨hrank, hne⟩ := h.follows hq
  have hk : q.kind = .varPositional := of_decide_eq_true hk
  rw [hk] at hrank hne
  exact hne rfl (ParamKind.rank_injective (Nat.le_antisymm hrank hp))

/-- Nothing stands behind a parameter that collects keywords. -/
theorem collectsKeywords_eq_false : s.collectsKeywords = false :=
  List.any_eq_false.2 fun _ hq hk => not_follows_varKeyword (of_decide_eq_true hk) (h.follows hq)

/-! ## The parameters before it -/

theorem positionalCount_le : s.positionalCount ≤ s'.positionalCount := by
  unfold positionalCount
  rw [h.params, List.countP_append]
  exact Nat.le_add_right _ _

theorem collectsPositional_mono (hc : s.collectsPositional = true) :
    s'.collectsPositional = true := by
  rw [collectsPositional, h.params, List.any_append, Bool.or_eq_true]
  exact .inl hc

theorem openDefect?_of_collects {call : Call} {q : Param}
    (hq : openDefect? s.collectsKeywords call q = none) :
    openDefect? s'.collectsKeywords call q = none := by
  rw [h.collectsKeywords_eq_false] at hq
  unfold openDefect? at hq ⊢
  split at hq
  · cases hq
  · rename_i hk
    rw [if_neg fun hc => hk ⟨hc.1, hc.2.1, rfl⟩]
    exact hq

/-- The parameters before the new one hold what they held. -/
theorem held_eq {call : Call} {q : Param} (hq : q ∈ s.params) (i : Nat) :
    s'.held call (q, i) = s.held call (q, i) := by
  have hk : q.kind ≠ .varKeyword := fun hk => not_follows_varKeyword hk (h.follows hq)
  simp only [held]
  cases hkind : q.kind with
  | varKeyword => exact absurd hkind hk
  | _ => rfl

/-! ## A call that fits -/

variable {call : Call} (hf : s.Fits call)
include hf

/-- A parameter that could take one more positional argument gets none. -/
theorem length_args_le (hp : p.kind.rank ≤ ParamKind.varPositional.rank) :
    call.args.length ≤ s.params.length := by
  rcases hf.collected with hle | hc
  · exact Nat.le_trans hle List.countP_le_length
  · rw [h.collectsPositional_eq_false hp] at hc
    cases hc

theorem accepts_of_mem_keywords {name : String} (hn : name ∈ call.keywords) : s.Accepts name := by
  have hnone : s.unaccepted call = [] :=
    hf.accepted.resolve_left (by rw [h.collectsKeywords_eq_false]; decide)
  obtain ⟨⟨_, v⟩, hm, rfl⟩ := List.mem_map.1 hn
  by_contra hna
  have := mem_unaccepted.2 ⟨hm, hna⟩
  rw [hnone] at this
  cases this

theorem name_not_mem_keywords : p.name ∉ call.keywords := by
  intro hn
  obtain ⟨q, hq, -, he⟩ := h.accepts_of_mem_keywords hf hn
  exact h.name_ne hq he

theorem not_isSupplied : ¬ IsSupplied call p s.params.length := by
  rintro (⟨hp, hlt⟩ | ⟨-, hn⟩)
  · have hrank : p.kind.rank ≤ ParamKind.varPositional.rank := by
      revert hp
      cases p.kind <;> decide
    exact Nat.not_lt.2 (h.length_args_le hf hrank) hlt
  · exact h.name_not_mem_keywords hf hn

theorem unaccepted_eq_nil : s'.unaccepted call = [] := by
  refine List.filter_eq_nil_iff.2 fun entry he => ?_
  obtain ⟨q, hq, hk, hn⟩ := h.accepts_of_mem_keywords hf (List.mem_map_of_mem he)
  have hq' : q ∈ s'.params := h.params ▸ List.mem_append_left _ hq
  have : s'.Accepts entry.1 := ⟨q, hq', hk, hn⟩
  simpa using this

theorem openDefect?_self (hv : p.kind.isVariadic = false) (collects : Bool) :
    openDefect? collects call p = none := by
  obtain ⟨v, hd⟩ : ∃ v, p.default = some v :=
    Option.isSome_iff_exists.1 (h.optional.resolve_left (by simp [hv]))
  simp [openDefect?, h.name_not_mem_keywords hf, hd]

/-- A call that fits fits the extended signature as well. -/
theorem fits : s'.Fits call where
  keywords_nodup := hf.keywords_nodup
  once q i hq hi hk hn := by
    rcases h.getElem?_cases hq with hq | ⟨rfl, rfl⟩
    · exact hf.once q i hq hi hk hn
    · exact h.name_not_mem_keywords hf hn
  collected :=
    hf.collected.imp (Nat.le_trans · h.positionalCount_le) h.collectsPositional_mono
  filled q i hq hi hv := by
    rcases h.getElem?_cases hq with hq | ⟨-, rfl⟩
    · refine h.openDefect?_of_collects (hf.filled q i hq (fun hlt => hi ?_) hv)
      have := h.positionalCount_le
      unfold filledCount at hlt ⊢
      omega
    · exact h.openDefect?_self hf hv _
  accepted := .inr (h.unaccepted_eq_nil hf)

/-! ## What is bound -/

theorem held_self : s'.held call (p, s.params.length) = omitted p s.params.length := by
  unfold omitted
  cases hv : p.kind.isVariadic with
  | false =>
    have hs := h.not_isSupplied hf
    rw [held_of_not_isVariadic hv, taken?_of_not_filled fun hp => hs (.inl hp),
      takenOpen?_of_not_named fun hn => hs (.inr hn), Option.map_map]
    rfl
  | true =>
    rw [if_pos rfl]
    rcases ParamKind.isVariadic_iff.1 hv with hk | hk
    · have hle := h.length_args_le hf (Nat.le_of_eq (congrArg ParamKind.rank hk))
      rw [held_varPositional hk, List.drop_eq_nil_of_le (by simpa using hle), List.map_nil]
    · rw [held_varKeyword hk, h.unaccepted_eq_nil hf, List.map_nil]

theorem table_eq : s'.table call = s.table call ++ omitted p s.params.length := by
  have hbefore : s.params.zipIdx.flatMap (s'.held call) = s.table call :=
    List.flatMap_congr fun x hx => h.held_eq (List.fst_mem_of_mem_zipIdx hx) x.2
  rw [table, h.params, List.zipIdx_append, List.flatMap_append, hbefore, Nat.zero_add]
  simp [h.held_self hf]

end Extends

/-- A call that can be bound is bound in the same way after a parameter was added that it may leave
out: what was bound stands as it was, in its order and place, and behind it the default of the new
parameter, or nothing if that is variadic. -/
theorem bind_of_extended {s s' : Signature} {p : Param} (h : ofParams (s.params ++ [p]) = .ok s')
    (ho : p.kind.isVariadic = true ∨ p.default.isSome = true) {call : Call} {bound : List Bound}
    (hb : s.bind call = .ok bound) :
    (p.kind.isVariadic = true → s'.bind call = .ok bound) ∧
    (p.kind.isVariadic = false → ∃ v, p.default = some v ∧
      s'.bind call = .ok (bound ++ [⟨s.params.length, .default, v⟩])) := by
  have he : s.Extends s' p := ⟨ofParams_params h, ho⟩
  obtain ⟨hf, rfl⟩ := bind_eq_ok_iff.1 hb
  have hb' : s'.bind call = .ok (s.table call ++ omitted p s.params.length) :=
    bind_eq_ok_iff.2 ⟨he.fits hf, (he.table_eq hf).symm⟩
  refine ⟨fun hv => ?_, fun hv => ?_⟩
  · rw [hb', omitted, if_pos hv, List.append_nil]
  · obtain ⟨v, hd⟩ := Option.isSome_iff_exists.1 (ho.resolve_left (by simp [hv]))
    refine ⟨v, hd, ?_⟩
    rw [hb', omitted, hv, hd]
    rfl

/-- Behind a parameter that collects positional arguments and one given by name, a default is added;
behind these, one that collects keywords adds nothing. -/
theorem collected_call_bound_with_default :
    let ps : List Param := [⟨"first", .positionalOnly, none, none⟩,
      ⟨"rest", .varPositional, none, none⟩, ⟨"name", .keywordOnly, none, none⟩]
    let depth : Param := ⟨"depth", .keywordOnly, some (.int 3), none⟩
    let others : Param := ⟨"others", .varKeyword, none, none⟩
    let call : Call := ⟨[.int 1, .int 2], [("name", .str "n")]⟩
    let bound : List Bound := [⟨0, .positional 0, .int 1⟩, ⟨1, .positional 1, .int 2⟩,
      ⟨2, .keyword "name", .str "n"⟩]
    ∃ s s' s'', ofParams ps = .ok s ∧ ofParams (s.params ++ [depth]) = .ok s' ∧
      ofParams (s'.params ++ [others]) = .ok s'' ∧ s.bind call = .ok bound ∧
      s'.bind call = .ok (bound ++ [⟨3, .default, .int 3⟩]) ∧
      s''.bind call = .ok (bound ++ [⟨3, .default, .int 3⟩]) := by
  intro ps depth others call bound
  have hs : ofParams ps = .ok ⟨ps, rfl⟩ := rfl
  have hs' : ofParams (ps ++ [depth]) = .ok ⟨ps ++ [depth], rfl⟩ := rfl
  have hs'' : ofParams (ps ++ [depth] ++ [others]) = .ok ⟨ps ++ [depth] ++ [others], rfl⟩ := rfl
  have hb : (⟨ps, rfl⟩ : Signature).bind call = .ok bound := rfl
  obtain ⟨v, hv, hb'⟩ := (bind_of_extended hs' (.inr rfl) hb).2 rfl
  cases hv
  exact ⟨_, _, _, hs, hs', hs'', hb, hb', (bind_of_extended hs'' (.inl rfl) hb').1 rfl⟩

end Signature
end CallContract
