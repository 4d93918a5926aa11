import CallContract.Proofs.Binding.FirstDefect

/-!
# Who holds what

A call without defects is one that fits its signature in five respects (`Fits`). What a parameter
holds is read source by source: an argument by position, a keyword, or the default. A source belongs
to one parameter only.

**Results.**
* `defects_eq_nil_iff`: no defect means that the call fits.
* `mem_held_positional`, `mem_held_keyword`, `mem_held_default`: the values that a parameter holds,
  by their sources.
* `boundTo_table`: a parameter's values are those bound to its index.
* `param_unique_of_source`: a source that is not the default belongs to one parameter.
-/
namespace CallContract
namespace Signature

/-! ## Calls without a defect -/

/-- What a call without defects is like. -/
structure Fits (s : Signature) (call : Call) : Prop where
  keywords_nodup : call.keywords.Nodup
  once : ∀ p i, s.params[i]? = some p → i < call.args.length → p.kind = .positionalOrKeyword →
    p.name ∉ call.keywords
  collected : call.args.length ≤ s.positionalCount ∨ s.collectsPositional = true
  filled : ∀ p i, s.params[i]? = some p → ¬ i < s.filledCount call → p.kind.isVariadic = false →
    openDefect? s.collectsKeywords call p = none
  accepted : s.collectsKeywords = true ∨ s.unaccepted call = []

theorem repeatedKeywords_eq_nil {call : Call} :
    call.repeatedKeywords = [] ↔ call.keywords.Nodup := by
  rw [← List.head?_eq_none_iff, ← firstRepeated_eq_repeatedKeywords, firstRepeated_eq_none]
  simp [Call.keywords]

theorem filterMap_zipIdx_eq_nil {α β : Type} {l : List α} {f : α × Nat → Option β} :
    l.zipIdx.filterMap f = [] ↔ ∀ a i, l[i]? = some a → f (a, i) = none := by
  rw [List.filterMap_eq_nil_iff]
  refine ⟨?_, ?_⟩
  · intro h a i hi
    exact h _ (List.mk_mem_zipIdx_iff_getElem?.2 hi)
  · intro h x hx
    exact h x.1 x.2 (List.mem_zipIdx_iff_getElem?.1 hx)

theorem surplusDefects_eq_nil {s : Signature} {call : Call} :
    s.surplusDefects call = [] ↔ s.collectsKeywords = true ∨ s.unaccepted call = [] := by
  unfold surplusDefects
  split
  · rename_i h
    simp [h]
  · rename_i h
    simp [h]

theorem defects_eq_nil_iff {s : Signature} {call : Call} :
    s.defects call = [] ↔ s.Fits call := by
  simp only [defects, List.append_eq_nil_iff, List.map_eq_nil_iff, repeatedKeywords_eq_nil,
    filterMap_zipIdx_eq_nil, surplusDefects_eq_nil]
  refine ⟨?_, ?_⟩
  · intro h'
    obtain ⟨⟨⟨⟨hrep, hmult⟩, hmany⟩, hopen⟩, hsur⟩ := h'
    refine ⟨hrep, ?_, ?_, ?_, hsur⟩
    · intro p i hp hi hk hn
      have hlt := (s.lt_filledCount_iff call hp).2 ⟨by rw [hk]; rfl, hi⟩
      have := hmult p i hp
      simp [multipleValues?, hlt, hk, hn] at this
    · by_cases hle : call.args.length ≤ s.positionalCount
      · exact .inl hle
      · right
        by_contra hc
        simp [hc, Nat.lt_of_not_le hle] at hmany
    · intro p i hp hi hv
      have := hopen p i hp
      simpa [hi, hv] using this
  · intro h
    refine ⟨⟨⟨⟨h.keywords_nodup, ?_⟩, ?_⟩, ?_⟩, h.accepted⟩
    · intro p i hp
      refine if_neg ?_
      intro h'
      obtain ⟨hlt, hk, hn⟩ := h'
      exact h.once p i hp ((s.lt_filledCount_iff call hp).1 hlt).2 hk hn
    · refine if_neg ?_
      intro h'
      obtain ⟨hlt, hc⟩ := h'
      rcases h.collected with hle | hcol
      · omega
      · rw [hc] at hcol
        cases hcol
    · intro p i hp
      split
      · rfl
      · rename_i hn
        rw [not_or, Bool.not_eq_true] at hn
        exact h.filled p i hp hn.1 hn.2

theorem bind_eq_ok_iff {s : Signature} {call : Call} {bound : List Bound} :
    s.bind call = .ok bound ↔ s.Fits call ∧ bound = s.table call := by
  rw [bind_eq, rejectFirst_eq_ok, defects_eq_nil_iff, eq_comm (a := bound)]

/-! ## What a parameter holds, by source -/

/-- A parameter is supplied by position, or by a keyword that it accepts. -/
def IsSupplied (call : Call) (p : Param) (i : Nat) : Prop :=
  (p.kind.isPositional = true ∧ i < call.args.length) ∨
  (p.kind.isNamed = true ∧ p.name ∈ call.keywords)

instance (call : Call) (p : Param) (i : Nat) : Decidable (IsSupplied call p i) :=
  inferInstanceAs (Decidable (_ ∨ _))

theorem taken?_of_filled {call : Call} {p : Param} {i : Nat} {v : Value}
    (hp : p.kind.isPositional = true) (hv : call.args[i]? = some v) :
    taken? call p i = some ⟨.positional i, v⟩ := by
  simp [taken?, hp, hv]

theorem taken?_of_not_filled {call : Call} {p : Param} {i : Nat}
    (h : ¬ (p.kind.isPositional = true ∧ i < call.args.length)) :
    taken? call p i = takenOpen? call p := by
  unfold taken?
  split
  · rename_i hp
    rw [List.getElem?_eq_none (Nat.not_lt.1 fun hi => h ⟨hp, hi⟩)]
    rfl
  · rfl

theorem takenOpen?_of_named {call : Call} {p : Param} {v : Value}
    (hp : p.kind.isNamed = true) (hv : call.keyword? p.name = some v) :
    takenOpen? call p = some ⟨.keyword p.name, v⟩ := by
  simp [takenOpen?, hp, hv]

theorem takenOpen?_of_not_named {call : Call} {p : Param}
    (h : ¬ (p.kind.isNamed = true ∧ p.name ∈ call.keywords)) :
    takenOpen? call p = p.default.map (⟨.default, ·⟩) := by
  unfold takenOpen?
  split
  · rename_i hp
    have hk : ¬ call.hasKeyword p.name = true := fun hk => h ⟨hp, Call.hasKeyword_iff.1 hk⟩
    rw [Option.not_isSome_iff_eq_none.1 hk]
    rfl
  · rfl

/-- A parameter that is not variadic takes its argument by position, else by name, else its
default. -/
theorem taken?_eq_some_iff {call : Call} {p : Param} {i : Nat} {a : Argument} :
    taken? call p i = some a ↔
      (p.kind.isPositional = true ∧ ∃ v, call.args[i]? = some v ∧ a = ⟨.positional i, v⟩) ∨
      (¬ (p.kind.isPositional = true ∧ i < call.args.length) ∧ p.kind.isNamed = true ∧
        ∃ v, call.keyword? p.name = some v ∧ a = ⟨.keyword p.name, v⟩) ∨
      (¬ IsSupplied call p i ∧ ∃ v, p.default = some v ∧ a = ⟨.default, v⟩) := by
  refine ⟨?_, ?_⟩
  · intro h
    by_cases hpos : p.kind.isPositional = true ∧ i < call.args.length
    · have hv := List.getElem?_eq_getElem hpos.2
      rw [taken?_of_filled hpos.1 hv, Option.some.injEq] at h
      exact .inl ⟨hpos.1, _, hv, h.symm⟩
    · rw [taken?_of_not_filled hpos] at h
      by_cases hn : p.kind.isNamed = true ∧ p.name ∈ call.keywords
      · obtain ⟨v, hv⟩ := Option.isSome_iff_exists.1 (Call.hasKeyword_iff.2 hn.2)
        rw [takenOpen?_of_named hn.1 hv, Option.some.injEq] at h
        exact .inr (.inl ⟨hpos, hn.1, v, hv, h.symm⟩)
      · rw [takenOpen?_of_not_named hn, Option.map_eq_some_iff] at h
        obtain ⟨v, hv, ha⟩ := h
        exact .inr (.inr ⟨fun hs => hs.elim hpos hn, v, hv, ha.symm⟩)
  · intro h'
    rcases h' with ⟨hp, v, hv, rfl⟩ | ⟨hpos, hn, v, hv, rfl⟩ | ⟨hs, v, hv, rfl⟩
    · exact taken?_of_filled hp hv
    · rw [taken?_of_not_filled hpos, takenOpen?_of_named hn hv]
    · rw [taken?_of_not_filled fun h => hs (.inl h), takenOpen?_of_not_named fun h => hs (.inr h),
        hv]
      rfl

theorem held_varPositional {s : Signature} {call : Call} {p : Param}
    (hp : p.kind = .varPositional) (i : Nat) :
    s.held call (p, i) = (call.args.zipIdx.drop i).map fun (v, j) => ⟨i, .positional j, v⟩ := by
  simp only [held, hp]

theorem held_varKeyword {s : Signature} {call : Call} {p : Param}
    (hp : p.kind = .varKeyword) (i : Nat) :
    s.held call (p, i) = (s.unaccepted call).map fun (name, v) => ⟨i, .keyword name, v⟩ := by
  simp only [held, hp]

theorem held_of_not_isVariadic {s : Signature} {call : Call} {p : Param}
    (hp : p.kind.isVariadic = false) (i : Nat) :
    s.held call (p, i) = ((taken? call p i).map (Bound.mk i)).toList := by
  simp only [held]
  cases hk : p.kind with
  | varPositional => rw [hk] at hp; cases hp
  | varKeyword => rw [hk] at hp; cases hp
  | _ => rfl

theorem param_of_mem_held {s : Signature} {call : Call} {p : Param} {i : Nat} {b : Bound}
    (h : b ∈ s.held call (p, i)) : b.param = i := by
  simp only [held] at h
  split at h
  · obtain ⟨_, -, rfl⟩ := List.mem_map.1 h
    rfl
  · obtain ⟨_, -, rfl⟩ := List.mem_map.1 h
    rfl
  · rw [Option.mem_toList, Option.map_eq_some_iff] at h
    obtain ⟨_, -, rfl⟩ := h
    rfl

theorem mem_held_iff_taken? {s : Signature} {call : Call} {p : Param}
    (hp : p.kind.isVariadic = false) {i : Nat} {a : Argument} :
    ⟨i, a⟩ ∈ s.held call (p, i) ↔ taken? call p i = some a := by
  rw [held_of_not_isVariadic hp, Option.mem_toList, Option.map_eq_some_iff]
  simp

theorem mem_held_varPositional {s : Signature} {call : Call} {p : Param}
    (hp : p.kind = .varPositional) {i : Nat} {b : Bound} :
    b ∈ s.held call (p, i) ↔
      ∃ j v, i ≤ j ∧ call.args[j]? = some v ∧ b = ⟨i, .positional j, v⟩ := by
  rw [held_varPositional hp, ← zipIdx_drop, List.mem_map]
  refine ⟨?_, ?_⟩
  · intro h'
    obtain ⟨⟨v, j⟩, hm, rfl⟩ := h'
    obtain ⟨hle, hv⟩ := List.mk_mem_zipIdx_iff_le_and_getElem?_sub.1 hm
    rw [List.getElem?_drop, Nat.add_sub_cancel' hle] at hv
    exact ⟨j, v, hle, hv, rfl⟩
  · intro h'
    obtain ⟨j, v, hle, hv, rfl⟩ := h'
    refine ⟨(v, j), List.mk_mem_zipIdx_iff_le_and_getElem?_sub.2 ⟨hle, ?_⟩, rfl⟩
    rw [List.getElem?_drop, Nat.add_sub_cancel' hle, hv]

theorem mem_held_varKeyword {s : Signature} {call : Call} {p : Param}
    (hp : p.kind = .varKeyword) {i : Nat} {b : Bound} :
    b ∈ s.held call (p, i) ↔
      ∃ name v, (name, v) ∈ s.unaccepted call ∧ b = ⟨i, .keyword name, v⟩ := by
  rw [held_varKeyword hp, List.mem_map]
  refine ⟨?_, ?_⟩
  · intro h'
    obtain ⟨⟨name, v⟩, hm, rfl⟩ := h'
    exact ⟨name, v, hm, rfl⟩
  · intro h'
    obtain ⟨name, v, hm, rfl⟩ := h'
    exact ⟨(name, v), hm, rfl⟩

theorem mem_held_positional {s : Signature} {call : Call} {p : Param} {i j : Nat} {v : Value} :
    ⟨i, .positional j, v⟩ ∈ s.held call (p, i) ↔
      call.args[j]? = some v ∧
        (p.kind.isPositional = true ∧ i = j ∨ p.kind = .varPositional ∧ i ≤ j) := by
  cases hv : p.kind.isVariadic with
  | false =>
    have hk : p.kind ≠ .varPositional := fun he => by rw [he] at hv; cases hv
    rw [mem_held_iff_taken? hv, taken?_eq_some_iff]
    refine ⟨?_, ?_⟩
    · intro h'
      rcases h' with ⟨hp, w, hw, he⟩ | ⟨-, -, w, -, he⟩ | ⟨-, w, -, he⟩ <;> cases he
      exact ⟨hw, .inl ⟨hp, rfl⟩⟩
    · intro h'
      obtain ⟨hw, ⟨hp, rfl⟩ | ⟨he, -⟩⟩ := h'
      · exact .inl ⟨hp, v, hw, rfl⟩
      · exact absurd he hk
  | true =>
    rcases ParamKind.isVariadic_iff.1 hv with hk | hk
    · simp [mem_held_varPositional hk, hk, ParamKind.isPositional, and_comm]
    · simp [mem_held_varKeyword hk, hk, ParamKind.isPositional]

theorem mem_held_keyword {s : Signature} {call : Call} {p : Param} {i : Nat} {name : String}
    {v : Value} :
    ⟨i, .keyword name, v⟩ ∈ s.held call (p, i) ↔
      (p.kind.isNamed = true ∧ p.name = name ∧ call.keyword? name = some v ∧
        ¬ (p.kind.isPositional = true ∧ i < call.args.length)) ∨
      (p.kind = .varKeyword ∧ (name, v) ∈ s.unaccepted call) := by
  cases hv : p.kind.isVariadic with
  | false =>
    have hk : p.kind ≠ .varKeyword := fun he => by rw [he] at hv; cases hv
    rw [mem_held_iff_taken? hv, taken?_eq_some_iff]
    refine ⟨?_, ?_⟩
    · intro h'
      rcases h' with ⟨-, w, -, he⟩ | ⟨hpos, hn, w, hw, he⟩ | ⟨-, w, -, he⟩ <;> cases he
      exact .inl ⟨hn, rfl, hw, hpos⟩
    · intro h'
      rcases h' with ⟨hn, rfl, hw, hpos⟩ | ⟨he, -⟩
      · exact .inr (.inl ⟨hpos, hn, v, hw, rfl⟩)
      · exact absurd he hk
  | true =>
    rcases ParamKind.isVariadic_iff.1 hv with hk | hk
    · simp [mem_held_varPositional hk, hk, ParamKind.isNamed]
    · simp [mem_held_varKeyword hk, hk, ParamKind.isNamed]

theorem mem_held_default {s : Signature} {call : Call} {p : Param} {i : Nat} {v : Value} :
    ⟨i, .default, v⟩ ∈ s.held call (p, i) ↔
      p.kind.isVariadic = false ∧ ¬ IsSupplied call p i ∧ p.default = some v := by
  cases hv : p.kind.isVariadic with
  | false =>
    rw [mem_held_iff_taken? hv, taken?_eq_some_iff]
    simp
  | true =>
    rcases ParamKind.isVariadic_iff.1 hv with hk | hk
    · simp [mem_held_varPositional hk]
    · simp [mem_held_varKeyword hk]

/-! ## The table -/

theorem mem_table {s : Signature} {call : Call} {b : Bound} :
    b ∈ s.table call ↔ ∃ p, s.params[b.param]? = some p ∧ b ∈ s.held call (p, b.param) := by
  rw [table, List.mem_flatMap]
  refine ⟨?_, ?_⟩
  · intro h'
    obtain ⟨⟨p, i⟩, hx, hb⟩ := h'
    obtain rfl := param_of_mem_held hb
    exact ⟨p, List.mk_mem_zipIdx_iff_getElem?.1 hx, hb⟩
  · intro h'
    obtain ⟨p, hp, hb⟩ := h'
    exact ⟨(p, b.param), List.mk_mem_zipIdx_iff_getElem?.2 hp, hb⟩

/-- What is bound to an index is what its parameter holds. -/
theorem boundTo_table {s : Signature} (call : Call) {i : Nat} {p : Param}
    (hp : s.params[i]? = some p) : boundTo (s.table call) i = s.held call (p, i) := by
  rw [boundTo, table, List.filter_flatMap, flatMap_zipIdx_of_unique hp]
  · exact List.filter_eq_self.2 fun b hb => by simp [param_of_mem_held hb]
  · intro q j _ hne
    refine List.filter_eq_nil_iff.2 fun b hb => ?_
    simpa [param_of_mem_held hb] using hne

/-- A source belongs to one parameter. -/
theorem param_unique_of_source {s : Signature} {call : Call} {b c : Bound}
    (hb : b ∈ s.table call) (hc : c ∈ s.table call) (h : b.argument.source = c.argument.source)
    (hd : b.argument.source ≠ .default) : b.param = c.param := by
  obtain ⟨i, source, v⟩ := b
  obtain ⟨j, source', w⟩ := c
  obtain rfl : source = source' := h
  obtain ⟨p, hp, hb⟩ := mem_table.1 hb
  obtain ⟨q, hq, hc⟩ := mem_table.1 hc
  simp only at hp hq hb hc ⊢
  cases source with
  | positional k =>
    obtain ⟨-, ⟨hpos, rfl⟩ | ⟨hk, hle⟩⟩ := mem_held_positional.1 hb <;>
      obtain ⟨-, ⟨hpos', rfl⟩ | ⟨hk', hle'⟩⟩ := mem_held_positional.1 hc
    · rfl
    · have := (s.isPositional_iff_lt hp).1 hpos
      have := s.index_of_varPositional hq hk'
      omega
    · have := (s.isPositional_iff_lt hq).1 hpos'
      have := s.index_of_varPositional hp hk
      omega
    · exact s.index_unique_of_isVariadic hp hq (hk.trans hk'.symm) (by rw [hk]; rfl)
  | keyword name =>
    rcases mem_held_keyword.1 hb with ⟨hn, he, -⟩ | ⟨hk, hm⟩ <;>
      rcases mem_held_keyword.1 hc with ⟨hn', he', -⟩ | ⟨hk', hm'⟩
    · exact s.index_unique_of_name hp hq (he.trans he'.symm)
    · exact absurd ⟨p, List.mem_of_getElem? hp, hn, he⟩ (mem_unaccepted.1 hm').2
    · exact absurd ⟨q, List.mem_of_getElem? hq, hn', he'⟩ (mem_unaccepted.1 hm).2
    · exact s.index_unique_of_isVariadic hp hq (hk.trans hk'.symm) (by rw [hk]; rfl)
  | default => exact absurd rfl hd

end Signature
end CallContract
