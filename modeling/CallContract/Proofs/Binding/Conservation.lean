import CallContract.Proofs.Binding.Attribution

/-!
# Conservation of arguments

What binding returns is an account of the call: every argument of the call is in it once and under
its own source, and what is in it besides are declared defaults (`Conserves`). Entries are found by
their sources; that no entry comes twice is because a parameter holds nothing twice and entries of
different parameters have different indices.

**Results.**
* `nodup_table`: no entry comes twice.
* `exists_positional_mem_table`, `exists_keyword_mem_table`: no argument is lost.
* `bind_conserves`: what a successful binding returns accounts for the call.
-/
namespace CallContract
namespace Signature

/-- How many parameters fall back on their defaults. -/
def defaultedCount (s : Signature) (call : Call) : Nat :=
  s.params.zipIdx.countP fun (p, i) => p.kind.isVariadic = false ∧ ¬ IsSupplied call p i

/-- Bound values that account for a call. -/
structure Conserves (s : Signature) (call : Call) (bound : List Bound) : Prop where
  /-- Each positional argument is there once. -/
  positional : ∀ j v, call.args[j]? = some v →
    ∃ i, bound.filter (·.argument.source = .positional j) = [⟨i, .positional j, v⟩]
  /-- Each keyword is there once. -/
  keyword : ∀ name v, (name, v) ∈ call.kwargs →
    ∃ i, bound.filter (·.argument.source = .keyword name) = [⟨i, .keyword name, v⟩]
  /-- Everything else is the declared default of its parameter. -/
  other : ∀ b ∈ bound, (∀ j < call.args.length, b.argument.source ≠ .positional j) →
    (∀ name ∈ call.keywords, b.argument.source ≠ .keyword name) →
    b.argument.source = .default ∧
      ∃ p, s.params[b.param]? = some p ∧ p.default = some b.argument.value
  /-- A parameter that is not variadic has one value, its default only if nothing supplies it. -/
  single : ∀ i p, s.params[i]? = some p → p.kind.isVariadic = false →
    ∃ b, boundTo bound i = [b] ∧ (b.argument.source = .default ↔ ¬ IsSupplied call p i)
  /-- That value is from its own place among the positional arguments or under its own name. -/
  own : ∀ i p, s.params[i]? = some p → p.kind.isVariadic = false → ∀ b ∈ boundTo bound i,
    (∀ j, b.argument.source = .positional j → j = i) ∧
    (∀ name, b.argument.source = .keyword name → name = p.name)
  varPositional : ∀ i p, s.params[i]? = some p → p.kind = .varPositional →
    boundTo bound i = (call.args.zipIdx.drop i).map fun (v, j) => ⟨i, .positional j, v⟩
  varKeyword : ∀ i p, s.params[i]? = some p → p.kind = .varKeyword →
    boundTo bound i = (s.unaccepted call).map fun (name, v) => ⟨i, .keyword name, v⟩
  sorted : bound.Pairwise (·.param ≤ ·.param)
  param_lt : ∀ b ∈ bound, b.param < s.params.length
  length_eq : bound.length = call.args.length + call.kwargs.length + s.defaultedCount call

/-! ## Entries by source -/

/-- An entry has its value from where its source says. -/
theorem value_of_mem_table {s : Signature} {call : Call} {b : Bound} (hb : b ∈ s.table call) :
    match b.argument.source with
    | .positional j => call.args[j]? = some b.argument.value
    | .keyword name => (name, b.argument.value) ∈ call.kwargs
    | .default => ∃ p, s.params[b.param]? = some p ∧ p.default = some b.argument.value := by
  obtain ⟨i, source, v⟩ := b
  obtain ⟨p, hp, hb⟩ := mem_table.1 hb
  cases source with
  | positional j => exact (mem_held_positional.1 hb).1
  | keyword name =>
    rcases mem_held_keyword.1 hb with ⟨-, -, hv, -⟩ | ⟨-, hm⟩
    · exact Call.mem_kwargs_of_keyword? hv
    · exact (mem_unaccepted.1 hm).1
  | default => exact ⟨p, hp, (mem_held_default.1 hb).2.2⟩

theorem value_unique_of_keyword {call : Call} (h : call.keywords.Nodup) {name : String}
    {v w : Value} (hv : (name, v) ∈ call.kwargs) (hw : (name, w) ∈ call.kwargs) : v = w :=
  (Prod.ext_iff.1 (List.inj_on_of_nodup_map h hv hw rfl)).2

/-- An entry that is not a default is the only one of its source. -/
theorem eq_of_source {s : Signature} {call : Call} (h : s.Fits call) {b c : Bound}
    (hb : b ∈ s.table call) (hc : c ∈ s.table call) (hs : b.argument.source = c.argument.source)
    (hd : b.argument.source ≠ .default) : b = c := by
  have hparam := param_unique_of_source hb hc hs hd
  have hbv := value_of_mem_table hb
  have hcv := value_of_mem_table hc
  obtain ⟨i, source, v⟩ := b
  obtain ⟨j, source', w⟩ := c
  obtain rfl : source = source' := hs
  obtain rfl : i = j := hparam
  have hvw : v = w := by
    cases source with
    | positional k => exact Option.some.inj (hbv.symm.trans hcv)
    | keyword name => exact value_unique_of_keyword h.keywords_nodup hbv hcv
    | default => exact absurd rfl hd
  rw [hvw]

/-! ## Nothing is held twice -/

theorem nodup_held {s : Signature} {call : Call} (h : s.Fits call) (p : Param) (i : Nat) :
    (s.held call (p, i)).Nodup := by
  cases hv : p.kind.isVariadic with
  | false =>
    rw [held_of_not_isVariadic hv]
    cases taken? call p i with
    | none => exact List.nodup_nil
    | some a => exact List.nodup_singleton _
  | true =>
    rcases ParamKind.isVariadic_iff.1 hv with hk | hk
    · rw [held_varPositional hk]
      refine ((nodup_zipIdx call.args).sublist (List.drop_sublist i _)).map ?_
      intro (v, j) (w, k) he
      cases he
      rfl
    · rw [held_varKeyword hk]
      have hn : call.kwargs.Nodup := List.Nodup.of_map _ h.keywords_nodup
      refine (hn.filter _).map ?_
      intro (name, v) (name', w) he
      cases he
      rfl

theorem nodup_table {s : Signature} {call : Call} (h : s.Fits call) : (s.table call).Nodup := by
  rw [table, List.nodup_flatMap]
  refine ⟨fun x _ => nodup_held h x.1 x.2, s.pairwise_zipIdx.imp ?_⟩
  intro x y hxy b hx hy
  have := param_of_mem_held hx
  have := param_of_mem_held hy
  omega

theorem filter_eq_singleton {α : Type} {l : List α} {keep : α → Bool} {a : α} (hn : l.Nodup)
    (ha : a ∈ l) (hk : keep a = true) (hu : ∀ b ∈ l, keep b = true → b = a) :
    l.filter keep = [a] := by
  have hp : (l.filter keep).Perm [a] := by
    refine (List.perm_ext_iff_of_nodup (hn.filter _) (List.nodup_singleton a)).2 fun b => ?_
    rw [List.mem_filter, List.mem_singleton]
    exact ⟨fun hb => hu b hb.1 hb.2, fun hb => hb ▸ ⟨ha, hk⟩⟩
  exact List.perm_singleton.1 hp

theorem filter_source_table {s : Signature} {call : Call} (h : s.Fits call) {b : Bound}
    (hb : b ∈ s.table call) (hd : b.argument.source ≠ .default) :
    (s.table call).filter (·.argument.source = b.argument.source) = [b] := by
  refine filter_eq_singleton (nodup_table h) hb (by simp) fun c hc he => ?_
  have hs : c.argument.source = b.argument.source := of_decide_eq_true he
  exact (eq_of_source h hb hc hs.symm hd).symm

/-! ## Nothing is lost -/

theorem exists_positional_mem_table {s : Signature} {call : Call} (h : s.Fits call) {j : Nat}
    {v : Value} (hv : call.args[j]? = some v) : ∃ i, ⟨i, .positional j, v⟩ ∈ s.table call := by
  have hj : j < call.args.length := (List.getElem?_eq_some_iff.1 hv).1
  by_cases hlt : j < s.positionalCount
  · have hlen : j < s.params.length := Nat.lt_of_lt_of_le hlt List.countP_le_length
    have hp := List.getElem?_eq_getElem hlen
    have hpos := (s.isPositional_iff_lt hp).2 hlt
    exact ⟨j, mem_table.2 ⟨_, hp, mem_held_positional.2 ⟨hv, .inl ⟨hpos, rfl⟩⟩⟩⟩
  · -- too many for the positional parameters, so a variadic one is there
    have hcol := h.collected.resolve_left (by omega)
    obtain ⟨p, hm, hk⟩ := List.any_eq_true.1 hcol
    obtain ⟨i, hp⟩ := List.mem_iff_getElem?.1 hm
    have hi := s.index_of_varPositional hp (of_decide_eq_true hk)
    have hle : i ≤ j := by omega
    exact ⟨i, mem_table.2 ⟨p, hp, mem_held_positional.2 ⟨hv, .inr ⟨of_decide_eq_true hk, hle⟩⟩⟩⟩

theorem keyword?_eq_some {call : Call} (h : call.keywords.Nodup) {name : String} {v : Value}
    (hm : (name, v) ∈ call.kwargs) : call.keyword? name = some v := by
  have hk : call.hasKeyword name = true :=
    Call.hasKeyword_iff.2 (List.mem_map_of_mem (f := (·.1)) hm)
  obtain ⟨w, hw⟩ := Option.isSome_iff_exists.1 hk
  rw [hw, value_unique_of_keyword h hm (Call.mem_kwargs_of_keyword? hw)]

theorem exists_keyword_mem_table {s : Signature} {call : Call} (h : s.Fits call) {name : String}
    {v : Value} (hm : (name, v) ∈ call.kwargs) :
    ∃ i, ⟨i, .keyword name, v⟩ ∈ s.table call := by
  by_cases ha : s.Accepts name
  · obtain ⟨p, hp, hn, rfl⟩ := ha
    obtain ⟨i, hi⟩ := List.mem_iff_getElem?.1 hp
    have hpos : ¬ (p.kind.isPositional = true ∧ i < call.args.length) := by
      intro hpos
      have hk := ParamKind.eq_positionalOrKeyword hpos.1 hn
      exact h.once p i hi hpos.2 hk (List.mem_map_of_mem (f := (·.1)) hm)
    exact ⟨i, mem_table.2 ⟨p, hi, mem_held_keyword.2
      (.inl ⟨hn, rfl, keyword?_eq_some h.keywords_nodup hm, hpos⟩)⟩⟩
  · have hu : (name, v) ∈ s.unaccepted call := mem_unaccepted.2 ⟨hm, ha⟩
    have hcol := h.accepted.resolve_right (List.ne_nil_of_mem hu)
    obtain ⟨p, hp, hk⟩ := List.any_eq_true.1 hcol
    obtain ⟨i, hi⟩ := List.mem_iff_getElem?.1 hp
    exact ⟨i, mem_table.2 ⟨p, hi, mem_held_keyword.2 (.inr ⟨of_decide_eq_true hk, hu⟩)⟩⟩

/-! ## Single values -/

theorem exists_default {s : Signature} {call : Call} (h : s.Fits call) {p : Param} {i : Nat}
    (hp : s.params[i]? = some p) (hv : p.kind.isVariadic = false) (hs : ¬ IsSupplied call p i) :
    ∃ v, p.default = some v := by
  have hopen : ¬ i < s.filledCount call := by
    rw [s.lt_filledCount_iff call hp]
    exact fun hpos => hs (.inl hpos)
  have hmissing : p.kind = .positionalOnly ∨ p.name ∉ call.keywords := by
    by_cases hn : p.kind.isNamed = true
    · exact .inr fun hm => hs (.inr ⟨hn, hm⟩)
    · exact .inl (ParamKind.eq_positionalOnly hv hn)
  have hno := h.filled p i hp hopen hv
  unfold openDefect? at hno
  split at hno
  · cases hno
  · split at hno
    · cases hno
    · rename_i hd
      exact Option.ne_none_iff_exists'.1 fun he => hd ⟨he, hmissing⟩

theorem exists_taken? {s : Signature} {call : Call} (h : s.Fits call) {p : Param} {i : Nat}
    (hp : s.params[i]? = some p) (hv : p.kind.isVariadic = false) :
    ∃ a, taken? call p i = some a := by
  by_cases hpos : p.kind.isPositional = true ∧ i < call.args.length
  · exact ⟨_, taken?_of_filled hpos.1 (List.getElem?_eq_getElem hpos.2)⟩
  · rw [taken?_of_not_filled hpos]
    by_cases hn : p.kind.isNamed = true ∧ p.name ∈ call.keywords
    · obtain ⟨v, hk⟩ := Option.isSome_iff_exists.1 (Call.hasKeyword_iff.2 hn.2)
      exact ⟨_, takenOpen?_of_named hn.1 hk⟩
    · obtain ⟨v, hd⟩ := exists_default h hp hv fun hs => hs.elim hpos hn
      rw [takenOpen?_of_not_named hn, hd]
      exact ⟨_, rfl⟩

theorem exists_boundTo_table {s : Signature} {call : Call} (h : s.Fits call) {p : Param} {i : Nat}
    (hp : s.params[i]? = some p) (hv : p.kind.isVariadic = false) :
    ∃ b, boundTo (s.table call) i = [b] ∧
      (b.argument.source = .default ↔ ¬ IsSupplied call p i) := by
  obtain ⟨a, ha⟩ := exists_taken? h hp hv
  refine ⟨⟨i, a⟩, ?_, ?_⟩
  · rw [boundTo_table call hp, held_of_not_isVariadic hv, ha]
    rfl
  · rcases taken?_eq_some_iff.1 ha with ⟨hpos, w, hw, rfl⟩ | ⟨-, hn, w, hw, rfl⟩ | ⟨hs, w, -, rfl⟩
    · have hi : i < call.args.length := (List.getElem?_eq_some_iff.1 hw).1
      have hs : IsSupplied call p i := .inl ⟨hpos, hi⟩
      simp [hs]
    · have hm := List.mem_map_of_mem (f := (·.1)) (Call.mem_kwargs_of_keyword? hw)
      have hs : IsSupplied call p i := .inr ⟨hn, hm⟩
      simp [hs]
    · simp [hs]

theorem own_of_mem_boundTo {s : Signature} {call : Call} {p : Param} {i : Nat} {b : Bound}
    (hp : s.params[i]? = some p) (hv : p.kind.isVariadic = false)
    (hb : b ∈ boundTo (s.table call) i) :
    (∀ j, b.argument.source = .positional j → j = i) ∧
    (∀ name, b.argument.source = .keyword name → name = p.name) := by
  rw [boundTo_table call hp] at hb
  obtain ⟨k, source, v⟩ := b
  obtain rfl : k = i := param_of_mem_held hb
  refine ⟨?_, ?_⟩
  · intro j hs
    obtain rfl : source = .positional j := hs
    obtain ⟨-, ⟨-, he⟩ | ⟨hk, -⟩⟩ := mem_held_positional.1 hb
    · exact he.symm
    · rw [hk] at hv
      cases hv
  · intro name hs
    obtain rfl : source = .keyword name := hs
    rcases mem_held_keyword.1 hb with ⟨-, rfl, -⟩ | ⟨hk, -⟩
    · rfl
    · rw [hk] at hv
      cases hv

/-! ## The count -/

theorem length_eq_of_mem_iff {α : Type} {l m : List α} (hl : l.Nodup) (hm : m.Nodup)
    (h : ∀ a, a ∈ l ↔ a ∈ m) : l.length = m.length :=
  ((List.perm_ext_iff_of_nodup hl hm).2 h).length_eq

/-- The sources that a call supplies. -/
def suppliedSources (call : Call) : List Source :=
  (List.range call.args.length).map .positional ++ call.keywords.map .keyword

theorem nodup_suppliedSources {call : Call} (h : call.keywords.Nodup) :
    (suppliedSources call).Nodup := by
  refine List.Nodup.append (List.nodup_range.map ?_) (h.map ?_) ?_
  · intro i j he
    cases he
    rfl
  · intro name name' he
    cases he
    rfl
  · intro source hpos hkey
    obtain ⟨i, -, rfl⟩ := List.mem_map.1 hpos
    obtain ⟨name, -, he⟩ := List.mem_map.1 hkey
    cases he

theorem mem_suppliedSources_iff {s : Signature} {call : Call} (h : s.Fits call) (source : Source) :
    source ∈ suppliedSources call ↔
      source ≠ .default ∧ ∃ b ∈ s.table call, b.argument.source = source := by
  unfold suppliedSources
  rw [List.mem_append, List.mem_map, List.mem_map]
  refine ⟨?_, ?_⟩
  · intro h'
    rcases h' with ⟨j, hj, rfl⟩ | ⟨name, hm, rfl⟩
    · obtain ⟨i, hb⟩ := exists_positional_mem_table h
        (List.getElem?_eq_getElem (List.mem_range.1 hj))
      exact ⟨by simp, _, hb, rfl⟩
    · obtain ⟨⟨_, v⟩, hkw, rfl⟩ := List.mem_map.1 hm
      obtain ⟨i, hb⟩ := exists_keyword_mem_table h hkw
      exact ⟨by simp, _, hb, rfl⟩
  · intro h'
    obtain ⟨hd, b, hb, rfl⟩ := h'
    have hv := value_of_mem_table hb
    cases hs : b.argument.source with
    | positional j =>
      rw [hs] at hv
      exact .inl ⟨j, List.mem_range.2 (List.getElem?_eq_some_iff.1 hv).1, rfl⟩
    | keyword name =>
      rw [hs] at hv
      exact .inr ⟨name, List.mem_map_of_mem (f := (·.1)) hv, rfl⟩
    | default => exact absurd hs hd

theorem length_filter_supplied {s : Signature} {call : Call} (h : s.Fits call) :
    ((s.table call).filter (·.argument.source ≠ .default)).length =
      call.args.length + call.kwargs.length := by
  have hn : (((s.table call).filter (·.argument.source ≠ .default)).map
      (·.argument.source)).Nodup := by
    refine List.Nodup.map_on ?_ ((nodup_table h).filter _)
    intro b hb c hc he
    rw [List.mem_filter] at hb hc
    exact eq_of_source h hb.1 hc.1 he (of_decide_eq_true hb.2)
  have hlen := length_eq_of_mem_iff hn (nodup_suppliedSources h.keywords_nodup) fun source => by
    rw [mem_suppliedSources_iff h, List.mem_map]
    refine ⟨?_, ?_⟩
    · intro h'
      obtain ⟨b, hb, rfl⟩ := h'
      rw [List.mem_filter] at hb
      exact ⟨of_decide_eq_true hb.2, b, hb.1, rfl⟩
    · intro h'
      obtain ⟨hd, b, hb, rfl⟩ := h'
      exact ⟨b, List.mem_filter.2 ⟨hb, decide_eq_true hd⟩, rfl⟩
  simpa [suppliedSources, Call.keywords] using hlen

theorem mem_table_default_iff {s : Signature} {call : Call} {i : Nat} {v : Value} :
    ⟨i, .default, v⟩ ∈ s.table call ↔
      ∃ p, s.params[i]? = some p ∧ p.kind.isVariadic = false ∧ ¬ IsSupplied call p i ∧
        p.default = some v := by
  rw [mem_table]
  simp only [mem_held_default]

/-- A default is the only one of its parameter. -/
theorem eq_of_default_param {s : Signature} {call : Call} {b c : Bound} (hb : b ∈ s.table call)
    (hc : c ∈ s.table call) (hbs : b.argument.source = .default)
    (hcs : c.argument.source = .default) (h : b.param = c.param) : b = c := by
  obtain ⟨i, source, v⟩ := b
  obtain ⟨j, source', w⟩ := c
  obtain rfl : source = .default := hbs
  obtain rfl : source' = .default := hcs
  obtain rfl : i = j := h
  obtain ⟨p, hp, -, -, hv⟩ := mem_table_default_iff.1 hb
  obtain ⟨q, hq, -, -, hw⟩ := mem_table_default_iff.1 hc
  obtain rfl : p = q := Option.some.inj (hp.symm.trans hq)
  obtain rfl : v = w := Option.some.inj (hv.symm.trans hw)
  rfl

theorem length_filter_default {s : Signature} {call : Call} (h : s.Fits call) :
    ((s.table call).filter (·.argument.source = .default)).length = s.defaultedCount call := by
  have hn : (((s.table call).filter (·.argument.source = .default)).map (·.param)).Nodup := by
    refine List.Nodup.map_on ?_ ((nodup_table h).filter _)
    intro b hb c hc he
    obtain ⟨hb, hs⟩ := List.mem_filter.1 hb
    obtain ⟨hc, hs'⟩ := List.mem_filter.1 hc
    exact eq_of_default_param hb hc (of_decide_eq_true hs) (of_decide_eq_true hs') he
  have hn' : ((s.params.zipIdx.filter fun (p, i) =>
      p.kind.isVariadic = false ∧ ¬ IsSupplied call p i).map (·.2)).Nodup := by
    refine List.Nodup.sublist (List.filter_sublist.map _) ?_
    rw [List.zipIdx_map_snd]
    exact List.nodup_range'
  have hlen := length_eq_of_mem_iff hn hn' fun i => by
    rw [List.mem_map, List.mem_map]
    refine ⟨?_, ?_⟩
    · intro h'
      obtain ⟨⟨i, source, v⟩, hb, rfl⟩ := h'
      obtain ⟨hb, hs⟩ := List.mem_filter.1 hb
      obtain rfl : source = .default := of_decide_eq_true hs
      obtain ⟨p, hp, hv, hs, -⟩ := mem_table_default_iff.1 hb
      refine ⟨(p, i), List.mem_filter.2 ⟨List.mk_mem_zipIdx_iff_getElem?.2 hp, ?_⟩, rfl⟩
      exact decide_eq_true ⟨hv, hs⟩
    · intro h'
      obtain ⟨⟨p, i⟩, hx, rfl⟩ := h'
      obtain ⟨hx, hs⟩ := List.mem_filter.1 hx
      have hp := List.mk_mem_zipIdx_iff_getElem?.1 hx
      obtain ⟨hv, hs⟩ := of_decide_eq_true hs
      obtain ⟨w, hd⟩ := exists_default h hp hv hs
      exact ⟨⟨i, .default, w⟩, List.mem_filter.2
        ⟨mem_table_default_iff.2 ⟨p, hp, hv, hs, hd⟩, rfl⟩, rfl⟩
  rw [List.length_map, List.length_map] at hlen
  rw [hlen, defaultedCount, List.countP_eq_length_filter]

theorem length_table {s : Signature} {call : Call} (h : s.Fits call) :
    (s.table call).length = call.args.length + call.kwargs.length + s.defaultedCount call := by
  rw [← length_filter_supplied h, ← length_filter_default h,
    List.length_eq_length_filter_add (·.argument.source ≠ .default)]
  simp

theorem pairwise_table (s : Signature) (call : Call) :
    (s.table call).Pairwise (·.param ≤ ·.param) := by
  rw [table, List.pairwise_flatMap]
  refine ⟨fun x _ => List.pairwise_of_forall_mem_list fun b hb c hc => ?_,
    s.pairwise_zipIdx.imp ?_⟩
  · exact Nat.le_of_eq ((param_of_mem_held hb).trans (param_of_mem_held hc).symm)
  · intro x y hxy b hb c hc
    rw [param_of_mem_held hb, param_of_mem_held hc]
    exact Nat.le_of_lt hxy.2

theorem table_conserves {s : Signature} {call : Call} (h : s.Fits call) :
    s.Conserves call (s.table call) where
  positional j v hv := by
    obtain ⟨i, hb⟩ := exists_positional_mem_table h hv
    exact ⟨i, filter_source_table h hb (by simp)⟩
  keyword name v hm := by
    obtain ⟨i, hb⟩ := exists_keyword_mem_table h hm
    exact ⟨i, filter_source_table h hb (by simp)⟩
  other b hb hpos hkey := by
    have hv := value_of_mem_table hb
    cases hs : b.argument.source with
    | positional j =>
      rw [hs] at hv
      exact absurd hs (hpos j (List.getElem?_eq_some_iff.1 hv).1)
    | keyword name =>
      rw [hs] at hv
      exact absurd hs (hkey name (List.mem_map_of_mem (f := (·.1)) hv))
    | default =>
      rw [hs] at hv
      exact ⟨rfl, hv⟩
  single i p hp hv := exists_boundTo_table h hp hv
  own i p hp hv b hb := own_of_mem_boundTo hp hv hb
  varPositional i p hp hk := by rw [boundTo_table call hp, held_varPositional hk]
  varKeyword i p hp hk := by rw [boundTo_table call hp, held_varKeyword hk]
  sorted := pairwise_table s call
  param_lt b hb := by
    obtain ⟨p, hp, -⟩ := mem_table.1 hb
    exact (List.getElem?_eq_some_iff.1 hp).1
  length_eq := length_table h

/-- What a successful binding returns accounts for the call: no argument is lost, doubled or given
to a parameter that does not take it. -/
theorem bind_conserves {s : Signature} {call : Call} {bound : List Bound}
    (h : s.bind call = .ok bound) : s.Conserves call bound := by
  obtain ⟨hfits, rfl⟩ := bind_eq_ok_iff.1 h
  exact table_conserves hfits

/-- Two of three arguments by position and one keyword are collected, and a flag falls back on its
default. -/
theorem collected_call_conserved :
    ∃ s bound, Signature.ofParams
        [⟨"a", .positionalOrKeyword, none, none⟩, ⟨"rest", .varPositional, none, none⟩,
          ⟨"flag", .keywordOnly, some (.bool false), none⟩, ⟨"options", .varKeyword, none, none⟩]
          = .ok s ∧
      s.bind ⟨[.int 1, .int 2, .int 3], [("extra", .none)]⟩ = .ok bound ∧ bound.length = 5 ∧
      s.Conserves ⟨[.int 1, .int 2, .int 3], [("extra", .none)]⟩ bound :=
  ⟨_, _, rfl, rfl, rfl, bind_conserves rfl⟩

end Signature
end CallContract
