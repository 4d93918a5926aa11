import CallContract.Proofs.Binding.Conservation
import Mathlib.Logic.Relation

/-!
# Arguments by position or by name

A parameter that takes its argument by position or by name does not tell the two apart. Let the last
positional argument of a call be one of such a parameter, and give it under the parameter's name
instead, at any place among the keywords (`GivesByName`). The two calls have the same defects, in
the same order, and bind the same values to the same parameters; only the source of this one
argument differs.

**Repetition.** The step may be taken again from the new call, as long as the parameter of its last
positional argument takes names, so any number of arguments may be given by name (`Named`).

**Results.**
* `GivesByName.defects_eq`, `GivesByName.table_eq`: the defects and the bound values of the two
  calls.
* `GivesByName.bind_eq`: one step.
* `bind_of_named`: any number of steps, by induction on them.
-/
namespace CallContract

/-! ## Sources renamed -/

/-- The argument at the position, as one given under the name; all others as they are. -/
def Argument.underName (position : Nat) (name : String) (a : Argument) : Argument :=
  if a.source = .positional position then ⟨.keyword name, a.value⟩ else a

def Bound.mapArgument (f : Argument → Argument) (b : Bound) : Bound := ⟨b.param, f b.argument⟩

theorem Argument.underName_value (position : Nat) (name : String) (a : Argument) :
    (a.underName position name).value = a.value := by
  unfold underName
  split <;> rfl

theorem Argument.underName_of_ne {position : Nat} {name : String} {a : Argument}
    (h : a.source ≠ .positional position) : a.underName position name = a :=
  if_neg h

namespace Signature

/-- The last positional argument of the first call is given by name in the second, which is the same
otherwise. Its parameter takes it either way, and the first call has no keyword of that name. -/
structure GivesByName (s : Signature) (p : Param) (v : Value) (c c' : Call) : Prop where
  param : s.params[c'.args.length]? = some p
  kind : p.kind = .positionalOrKeyword
  absent : p.name ∉ c.keywords
  args : c.args = c'.args ++ [v]
  kwargs : ∃ front back, c.kwargs = front ++ back ∧ c'.kwargs = front ++ (p.name, v) :: back

namespace GivesByName

variable {s : Signature} {p : Param} {v : Value} {c c' : Call}

/-! ## The arguments of the two calls -/

theorem length_args (h : s.GivesByName p v c c') : c.args.length = c'.args.length + 1 := by
  simp [h.args]

theorem lt_positionalCount (h : s.GivesByName p v c c') :
    c'.args.length < s.positionalCount :=
  (s.isPositional_iff_lt h.param).1 (by rw [h.kind]; rfl)

theorem getElem?_self (h : s.GivesByName p v c c') : c.args[c'.args.length]? = some v := by
  simp [h.args]

theorem getElem?_of_ne (h : s.GivesByName p v c c') {j : Nat} (hj : j ≠ c'.args.length) :
    c'.args[j]? = c.args[j]? := by
  rw [h.args, List.getElem?_append]
  split
  · rfl
  · have hlen : ([v] : List Value).length = 1 := rfl
    rw [List.getElem?_eq_none (by omega), List.getElem?_eq_none (by omega)]

theorem mem_keywords (h : s.GivesByName p v c c') {name : String} :
    name ∈ c'.keywords ↔ name = p.name ∨ name ∈ c.keywords := by
  obtain ⟨front, back, hc, hc'⟩ := h.kwargs
  simp only [Call.keywords, hc, hc', List.map_append, List.map_cons, List.mem_append,
    List.mem_cons]
  tauto

theorem keyword?_self (h : s.GivesByName p v c c') : c'.keyword? p.name = some v := by
  obtain ⟨front, back, hc, hc'⟩ := h.kwargs
  have hfront : ∀ entry ∈ front, ¬ p.name == entry.1 := by
    intro entry he hn
    refine h.absent ?_
    rw [Call.keywords, hc, eq_of_beq hn]
    exact List.mem_map_of_mem (List.mem_append_left back he)
  rw [Call.keyword?, hc']
  refine List.lookup_eq_some_iff.2 ⟨front, back, rfl, ?_⟩
  simpa using hfront

theorem keyword?_of_ne (h : s.GivesByName p v c c') {name : String} (hn : name ≠ p.name) :
    c'.keyword? name = c.keyword? name := by
  obtain ⟨front, back, hc, hc'⟩ := h.kwargs
  have hne : (name == p.name) = false := by simpa using hn
  rw [Call.keyword?, Call.keyword?, hc, hc', List.lookup_append, List.lookup_append,
    List.lookup_cons, hne]

theorem unaccepted_eq (h : s.GivesByName p v c c') : s.unaccepted c' = s.unaccepted c := by
  obtain ⟨front, back, hc, hc'⟩ := h.kwargs
  have haccepts : s.Accepts p.name :=
    ⟨p, List.mem_of_getElem? h.param, by rw [h.kind]; rfl, rfl⟩
  rw [unaccepted, unaccepted, hc, hc', List.filter_append, List.filter_append, List.filter_cons]
  simp [haccepts]

/-! ## The same defects -/

/-- A name that is in neither part is no repetition, and makes none, wherever it comes in. -/
theorem filterMap_repeated_insert {front back : List String} {name : String}
    (hf : name ∉ front) (hb : name ∉ back) :
    ((front ++ name :: back).zipIdx.filterMap fun (n, i) =>
        if n ∈ (front ++ name :: back).take i then some n else none) =
      (front ++ back).zipIdx.filterMap fun (n, i) =>
        if n ∈ (front ++ back).take i then some n else none := by
  rw [List.zipIdx_append, List.zipIdx_append, List.filterMap_append, List.filterMap_append,
    List.zipIdx_cons, List.filterMap_cons]
  have hself : name ∉ (front ++ name :: back).take (0 + front.length) := by simpa using hf
  simp only [hself, if_false]
  congr 1
  · refine List.filterMap_congr fun ⟨n, i⟩ hx => ?_
    have hi : i ≤ front.length := Nat.le_of_lt (List.snd_lt_of_mem_zipIdx hx)
    simp only [List.take_append_of_le_length hi]
  · rw [List.zipIdx_succ, List.filterMap_map]
    refine List.filterMap_congr fun ⟨n, i⟩ hx => ?_
    have hi : front.length ≤ i := by simpa using List.le_snd_of_mem_zipIdx hx
    have hn : n ≠ name := fun he => hb (he ▸ List.fst_mem_of_mem_zipIdx hx)
    have htake : n ∈ (front ++ name :: back).take (i + 1) ↔ n ∈ (front ++ back).take i := by
      rw [List.take_append, List.take_append, List.take_of_length_le (by omega),
        List.take_of_length_le hi, show i + 1 - front.length = i - front.length + 1 by omega,
        List.take_succ_cons]
      simp [hn]
    simp only [Function.comp_apply, htake]

theorem repeatedKeywords_eq (h : s.GivesByName p v c c') :
    c'.repeatedKeywords = c.repeatedKeywords := by
  obtain ⟨front, back, hc, hc'⟩ := h.kwargs
  have habsent := h.absent
  rw [Call.keywords, hc, List.map_append, List.mem_append, not_or] at habsent
  rw [Call.repeatedKeywords, Call.repeatedKeywords, Call.keywords, Call.keywords, hc, hc',
    List.map_append, List.map_append, List.map_cons]
  exact filterMap_repeated_insert habsent.1 habsent.2

theorem filledCount_eq (h : s.GivesByName p v c c') :
    s.filledCount c = c'.args.length + 1 ∧ s.filledCount c' = c'.args.length := by
  have := h.lt_positionalCount
  have := h.length_args
  unfold filledCount
  omega

/-- No other parameter has the name. -/
theorem name_ne (h : s.GivesByName p v c c') {q : Param} {j : Nat} (hq : s.params[j]? = some q)
    (hj : j ≠ c'.args.length) : q.name ≠ p.name :=
  fun he => hj (s.index_unique_of_name hq h.param he)

theorem mem_keywords_of_ne (h : s.GivesByName p v c c') {name : String} (hn : name ≠ p.name) :
    name ∈ c'.keywords ↔ name ∈ c.keywords := by
  simp [h.mem_keywords, hn]

theorem multipleValues?_eq (h : s.GivesByName p v c c') {q : Param} {j : Nat}
    (hq : s.params[j]? = some q) :
    multipleValues? (s.filledCount c') c' (q, j) = multipleValues? (s.filledCount c) c (q, j) := by
  obtain ⟨hfilled, hfilled'⟩ := h.filledCount_eq
  simp only [multipleValues?, hfilled, hfilled']
  by_cases hj : j = c'.args.length
  · subst hj
    obtain rfl := Option.some.inj (hq.symm.trans h.param)
    simp [h.absent]
  · have hlt : j < c'.args.length ↔ j < c'.args.length + 1 := by omega
    simp only [hlt, h.mem_keywords_of_ne (h.name_ne hq hj)]

theorem openDefect?_self (h : s.GivesByName p v c c') (collects : Bool) :
    openDefect? collects c' p = none := by
  have hm : p.name ∈ c'.keywords := h.mem_keywords.2 (.inl rfl)
  simp [openDefect?, h.kind, hm]

theorem openDefect_eq (h : s.GivesByName p v c c') {q : Param} {j : Nat}
    (hq : s.params[j]? = some q) (collects : Bool) :
    (if j < s.filledCount c' ∨ q.kind.isVariadic = true then none
      else openDefect? collects c' q) =
    if j < s.filledCount c ∨ q.kind.isVariadic = true then none
      else openDefect? collects c q := by
  obtain ⟨hfilled, hfilled'⟩ := h.filledCount_eq
  rw [hfilled, hfilled']
  by_cases hj : j = c'.args.length
  · subst hj
    obtain rfl := Option.some.inj (hq.symm.trans h.param)
    simp [h.openDefect?_self]
  · have hlt : j < c'.args.length ↔ j < c'.args.length + 1 := by omega
    have hopen : openDefect? collects c' q = openDefect? collects c q := by
      simp only [openDefect?, h.mem_keywords_of_ne (h.name_ne hq hj)]
    simp only [hlt, hopen]

theorem openDefects_eq (h : s.GivesByName p v c c') (collects : Bool) :
    (s.params.zipIdx.filterMap fun (q, j) =>
      if j < s.filledCount c' ∨ q.kind.isVariadic = true then none
      else openDefect? collects c' q) =
    s.params.zipIdx.filterMap fun (q, j) =>
      if j < s.filledCount c ∨ q.kind.isVariadic = true then none
      else openDefect? collects c q :=
  List.filterMap_congr fun _ hx => h.openDefect_eq (List.mem_zipIdx_iff_getElem?.1 hx) collects

theorem defects_eq (h : s.GivesByName p v c c') : s.defects c' = s.defects c := by
  have hmany : s.positionalCount < c'.args.length ↔ s.positionalCount < c.args.length := by
    have := h.lt_positionalCount
    have := h.length_args
    omega
  have hmultiple : s.params.zipIdx.filterMap (multipleValues? (s.filledCount c') c') =
      s.params.zipIdx.filterMap (multipleValues? (s.filledCount c) c) :=
    List.filterMap_congr fun _ hx => h.multipleValues?_eq (List.mem_zipIdx_iff_getElem?.1 hx)
  have hsurplus : s.surplusDefects c' = s.surplusDefects c := by
    rw [surplusDefects, surplusDefects, h.unaccepted_eq]
  simp only [defects, h.repeatedKeywords_eq, hmultiple, hmany, h.openDefects_eq, hsurplus]

/-! ## The same values -/

theorem takenOpen?_of_ne (h : s.GivesByName p v c c') {q : Param} (hn : q.name ≠ p.name) :
    takenOpen? c' q = takenOpen? c q := by
  rw [takenOpen?, takenOpen?, h.keyword?_of_ne hn]

/-- What another parameter takes is the same, and not the argument given by name. -/
theorem taken?_of_ne (h : s.GivesByName p v c c') {q : Param} {j : Nat}
    (hq : s.params[j]? = some q) (hj : j ≠ c'.args.length) :
    taken? c' q j = (taken? c q j).map (Argument.underName c'.args.length p.name) := by
  have heq : taken? c' q j = taken? c q j := by
    rw [taken?, taken?, h.getElem?_of_ne hj, h.takenOpen?_of_ne (h.name_ne hq hj)]
  rw [heq]
  cases ha : taken? c q j with
  | none => rfl
  | some a =>
    rw [Option.map_some, Argument.underName_of_ne]
    rcases taken?_eq_some_iff.1 ha with ⟨-, _, -, rfl⟩ | ⟨-, -, _, -, rfl⟩ | ⟨-, _, -, rfl⟩
    · simpa using hj
    · simp
    · simp

theorem taken?_self (h : s.GivesByName p v c c') :
    taken? c p c'.args.length = some ⟨.positional c'.args.length, v⟩ ∧
    taken? c' p c'.args.length = some ⟨.keyword p.name, v⟩ := by
  refine ⟨taken?_of_filled (by rw [h.kind]; rfl) h.getElem?_self, ?_⟩
  rw [taken?_of_not_filled fun hi => Nat.lt_irrefl _ hi.2]
  exact takenOpen?_of_named (by rw [h.kind]; rfl) h.keyword?_self

theorem held_eq (h : s.GivesByName p v c c') {q : Param} {j : Nat} (hq : s.params[j]? = some q) :
    s.held c' (q, j) =
      (s.held c (q, j)).map (Bound.mapArgument (Argument.underName c'.args.length p.name)) := by
  cases hv : q.kind.isVariadic with
  | true =>
    rcases ParamKind.isVariadic_iff.1 hv with hk | hk
    · -- all positional arguments go to parameters in front of the one that collects
      have hj := s.index_of_varPositional hq hk
      have hlt := h.lt_positionalCount
      have hlen := h.length_args
      rw [held_varPositional hk, held_varPositional hk, List.drop_eq_nil_of_le (by simp; omega),
        List.drop_eq_nil_of_le (by simp; omega)]
      rfl
    · rw [held_varKeyword hk, held_varKeyword hk, h.unaccepted_eq, List.map_map]
      rfl
  | false =>
    rw [held_of_not_isVariadic hv, held_of_not_isVariadic hv]
    by_cases hj : j = c'.args.length
    · subst hj
      obtain rfl := Option.some.inj (hq.symm.trans h.param)
      obtain ⟨ht, ht'⟩ := h.taken?_self
      rw [ht, ht']
      simp [Bound.mapArgument, Argument.underName]
    · rw [h.taken?_of_ne hq hj]
      cases taken? c q j <;> rfl

theorem table_eq (h : s.GivesByName p v c c') :
    s.table c' =
      (s.table c).map (Bound.mapArgument (Argument.underName c'.args.length p.name)) := by
  rw [table, table, List.map_flatMap]
  exact List.flatMap_congr fun _ hx => h.held_eq (List.mem_zipIdx_iff_getElem?.1 hx)

/-- The two calls are rejected for the same defect, or bound alike but for the one source. -/
theorem bind_eq (h : s.GivesByName p v c c') :
    s.bind c' = (s.bind c).map
      (List.map (Bound.mapArgument (Argument.underName c'.args.length p.name))) := by
  rw [Signature.bind_eq, Signature.bind_eq, h.defects_eq, h.table_eq]
  cases s.defects c <;> rfl

theorem boundTo_eq (h : s.GivesByName p v c c') {bound : List Bound} (hb : s.bind c = .ok bound) :
    boundTo bound c'.args.length = [⟨c'.args.length, .positional c'.args.length, v⟩] := by
  rw [(bind_eq_ok_iff.1 hb).2, boundTo_table c h.param,
    held_of_not_isVariadic (by rw [h.kind]; rfl), h.taken?_self.1]
  rfl

/-- No other parameter holds the argument. -/
theorem param_of_source (h : s.GivesByName p v c c') {bound : List Bound}
    (hb : s.bind c = .ok bound) {b : Bound} (hmem : b ∈ bound)
    (hs : b.argument.source = .positional c'.args.length) : b.param = c'.args.length := by
  have hown : ⟨c'.args.length, .positional c'.args.length, v⟩ ∈ bound :=
    List.mem_of_mem_filter (h.boundTo_eq hb ▸ List.mem_singleton_self _)
  rw [(bind_eq_ok_iff.1 hb).2] at hmem hown
  exact param_unique_of_source hmem hown hs (by simp [hs])

end GivesByName

/-! ## Any number of arguments -/

/-- Some arguments of the first call, from the last one on, are given by name in the second. -/
def Named (s : Signature) : Call → Call → Prop :=
  Relation.ReflTransGen fun c c' => ∃ p v, s.GivesByName p v c c'

/-- The argument, if it was one from the position on, as one given under its parameter's name. -/
def underNameFrom (s : Signature) (position : Nat) (a : Argument) : Argument :=
  match a.source with
  | .positional j =>
    if position ≤ j then ⟨.keyword ((s.params[j]?.map (·.name)).getD ""), a.value⟩ else a
  | _ => a

theorem underNameFrom_value (s : Signature) (position : Nat) (a : Argument) :
    (s.underNameFrom position a).value = a.value := by
  unfold underNameFrom
  split
  · split <;> rfl
  · rfl

theorem underNameFrom_of_lt (s : Signature) {position j : Nat} (h : j < position) (v : Value) :
    s.underNameFrom position ⟨.positional j, v⟩ = ⟨.positional j, v⟩ :=
  if_neg (Nat.not_le.2 h)

theorem underNameFrom_of_le {s : Signature} {position j : Nat} (h : position ≤ j) {p : Param}
    (hp : s.params[j]? = some p) (v : Value) :
    s.underNameFrom position ⟨.positional j, v⟩ = ⟨.keyword p.name, v⟩ := by
  simp [underNameFrom, h, hp]

/-- One more position is one more step. -/
theorem underName_underNameFrom {s : Signature} {i : Nat} {p : Param} (hp : s.params[i]? = some p)
    (a : Argument) :
    (s.underNameFrom (i + 1) a).underName i p.name = s.underNameFrom i a := by
  obtain ⟨source, v⟩ := a
  cases source with
  | positional j =>
    rcases Nat.lt_trichotomy j i with hlt | rfl | hlt
    · rw [underNameFrom_of_lt s (by omega), underNameFrom_of_lt s hlt,
        Argument.underName_of_ne (by simp; omega)]
    · rw [underNameFrom_of_lt s (by omega), underNameFrom_of_le (Nat.le_refl j) hp]
      exact if_pos rfl
    · simp [underNameFrom, Argument.underName, Nat.le_of_lt hlt, Nat.succ_le_of_lt hlt]
  | keyword name => rfl
  | default => rfl

/-- There are no arguments from the end of the call on. -/
theorem map_underNameFrom_length {s : Signature} {c : Call} {bound : List Bound}
    (h : s.bind c = .ok bound) :
    bound.map (Bound.mapArgument (s.underNameFrom c.args.length)) = bound := by
  refine (List.map_congr_left fun b hb => ?_).trans (List.map_id bound)
  have hv := value_of_mem_table ((bind_eq_ok_iff.1 h).2 ▸ hb)
  obtain ⟨i, source, v⟩ := b
  cases source with
  | positional j =>
    have hj := (List.getElem?_eq_some_iff.1 hv).1
    simp [Bound.mapArgument, underNameFrom, Nat.not_le.2 hj]
  | keyword name => rfl
  | default => rfl

theorem bind_of_named {s : Signature} {c c' : Call} (h : s.Named c c') :
    s.bind c' = (s.bind c).map
      (List.map (Bound.mapArgument (s.underNameFrom c'.args.length))) := by
  induction h with
  | refl =>
    cases hb : s.bind c with
    | error e => rfl
    | ok bound => exact congrArg Except.ok (map_underNameFrom_length hb).symm
  | tail _ hstep ih =>
    obtain ⟨p, v, hstep⟩ := hstep
    rw [hstep.bind_eq, ih, hstep.length_args]
    cases s.bind c with
    | error e => rfl
    | ok bound =>
      refine congrArg Except.ok ?_
      rw [List.map_map]
      refine List.map_congr_left fun b _ => ?_
      exact congrArg (Bound.mk b.param) (underName_underNameFrom hstep.param b.argument)

end Signature
end CallContract
