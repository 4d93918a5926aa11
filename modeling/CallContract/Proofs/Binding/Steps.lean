import CallContract.Proofs.Binding.Outcome

/-!
# The steps of binding

Each step of binding, by the parameters it starts from: the defect it stops at, and else all that it
binds.

**Results.**
* `fillPositional_eq`: the positional step, from any index on.
* `fillAllNamed_eq`: the step by name and default.
* `fillSurplus_eq`: the step of surplus keywords.
-/
namespace CallContract
namespace Signature

/-! ## The positional step -/

/-- Whether the positional step gets as far as the parameter. -/
def isReached (count : Nat) : Param × Nat → Bool
  | (p, i) => (p.kind.isPositional || p.kind = .varPositional) && decide (i < count)

/-- What the positional step binds to a parameter. -/
def heldByPosition (args : List Value) : Param × Nat → List Bound
  | (p, i) =>
    if p.kind.isPositional = true then
      (args[i]?.map fun v => (⟨i, .positional i, v⟩ : Bound)).toList
    else if p.kind = .varPositional then
      (args.zipIdx.drop i).map fun (v, j) => ⟨i, .positional j, v⟩
    else []

/-- The defects that the positional step can meet among parameters from an index on, when so many
arguments are left for them. -/
def positionalDefects (call : Call) (left : Nat) (params : List (Param × Nat)) :
    List Rejection :=
  params.filterMap (multipleValues? call.args.length call) ++
    if params.countP (·.1.kind.isPositional) < left ∧
        params.any (·.1.kind = .varPositional) = false then
      [.tooManyPositional]
    else []

theorem zipIdx_drop {α : Type} (l : List α) (k : Nat) :
    (l.drop k).zipIdx k = l.zipIdx.drop k := by
  apply List.ext_getElem?
  intro i
  simp [List.getElem?_zipIdx, List.getElem?_drop]

theorem fillPositional_of_length_le {call : Call} (ps : List Param) {k : Nat}
    (h : call.args.length ≤ k) :
    (ps.zipIdx k).filterMap (multipleValues? call.args.length call) = [] ∧
    (ps.zipIdx k).flatMap (heldByPosition call.args) = [] ∧
    (ps.zipIdx k).filter (fun x => !isReached call.args.length x) = ps.zipIdx k := by
  have hi {x : Param × Nat} (hx : x ∈ ps.zipIdx k) : call.args.length ≤ x.2 :=
    Nat.le_trans h (List.le_snd_of_mem_zipIdx hx)
  refine ⟨List.filterMap_eq_nil_iff.2 fun x hx => ?_, List.flatMap_eq_nil_iff.2 fun x hx => ?_,
    List.filter_eq_self.2 fun x hx => ?_⟩
  · have := hi hx
    simp [multipleValues?]; omega
  · have := hi hx
    simp [heldByPosition, List.drop_eq_nil_of_le, this]
  · have := hi hx
    simp [isReached]; omega

theorem positionalDefects_nil (call : Call) (left : Nat) :
    positionalDefects call left [] = if 0 < left then [.tooManyPositional] else [] := by
  simp [positionalDefects]

/-- A parameter filled by position takes one argument from those left. -/
theorem positionalDefects_cons {call : Call} {p : Param} (hp : p.kind.isPositional = true)
    {k : Nat} (hk : k < call.args.length) (rest : List (Param × Nat)) :
    positionalDefects call (call.args.length - k) ((p, k) :: rest) =
      (multipleValues? call.args.length call (p, k)).toList ++
        positionalDefects call (call.args.length - (k + 1)) rest := by
  have hv : p.kind ≠ .varPositional := by
    intro h
    rw [h] at hp
    cases hp
  have hc : rest.countP (fun x => x.1.kind.isPositional) + 1 < call.args.length - k ↔
      rest.countP (fun x => x.1.kind.isPositional) < call.args.length - (k + 1) := by omega
  simp only [positionalDefects, List.filterMap_cons, List.countP_cons, hp, if_true,
    List.any_cons, hv, decide_false, Bool.false_or, hc]
  cases multipleValues? call.args.length call (p, k) <;> simp

theorem positionalDefects_of_not_isPositional {call : Call} {left : Nat}
    {params : List (Param × Nat)} (h : ∀ x ∈ params, x.1.kind.isPositional = false) :
    positionalDefects call left params =
      if 0 < left ∧ params.any (·.1.kind = .varPositional) = false then [.tooManyPositional]
      else [] := by
  have hm : params.filterMap (multipleValues? call.args.length call) = [] := by
    refine List.filterMap_eq_nil_iff.2 fun x hx => ?_
    have hk : x.1.kind ≠ .positionalOrKeyword := by
      intro he
      have := h _ hx
      rw [he] at this
      cases this
    simp [multipleValues?, hk]
  have hc : params.countP (·.1.kind.isPositional) = 0 :=
    List.countP_eq_zero.2 fun x hx => by simp [h x hx]
  rw [positionalDefects, hm, hc, List.nil_append]

theorem fillPositional_of_isPositional {call : Call} {p : Param}
    (hp : p.kind.isPositional = true) {k : Nat} (hk : k < call.args.length) (v : Value)
    (rest : List (Param × Nat)) (args : List (Value × Nat)) :
    fillPositional call ((p, k) :: rest) ((v, k) :: args) =
      match multipleValues? call.args.length call (p, k) with
      | some e => .error e
      | none => (fillPositional call rest args).map fun (bound, open_) =>
          (⟨k, .positional k, v⟩ :: bound, open_) := by
  rw [fillPositional]
  cases hkind : p.kind with
  | positionalOnly =>
    simp only [multipleValues?, hkind, reduceCtorEq, false_and, and_false, if_false]
    cases fillPositional call rest args <;> rfl
  | positionalOrKeyword =>
    simp only [multipleValues?, hkind, hk, true_and, ← Call.hasKeyword_iff]
    split
    · rfl
    · cases fillPositional call rest args <;> rfl
  | _ => simp [hkind, ParamKind.isPositional] at hp

/-- What comes after a parameter that takes no single argument by position is not reached. -/
theorem not_reached_of_follows {p : Param} {ps : List Param} (hp : ¬ p.kind.isPositional = true)
    (hps : ∀ q ∈ ps, Follows p q) {x : Param × Nat} {k : Nat} (hx : x ∈ ps.zipIdx k) :
    x.1.kind.isPositional = false ∧ x.1.kind ≠ .varPositional := by
  have h := hps x.1 (List.fst_mem_of_mem_zipIdx hx)
  refine ⟨by simpa using fun hq => hp (h.isPositional hq), fun he => ?_⟩
  have hr := h.1
  have hv := h.2
  rw [he] at hr hv
  revert hp hr hv
  cases p.kind <;> decide

/-- What the positional step comes to, over the parameters and arguments from an index on. -/
def positionalOutcome (call : Call) (ps : List Param) (k : Nat) :
    Except Rejection (List Bound × List (Param × Nat)) :=
  rejectFirst (positionalDefects call (call.args.length - k) (ps.zipIdx k))
    ((ps.zipIdx k).flatMap (heldByPosition call.args),
      (ps.zipIdx k).filter fun x => !isReached call.args.length x)

theorem fillPositional_eq_of_length_le {call : Call} (ps : List Param) {k : Nat}
    (hk : call.args.length ≤ k) :
    fillPositional call (ps.zipIdx k) ((call.args.drop k).zipIdx k) =
      positionalOutcome call ps k := by
  obtain ⟨hm, hh, hr⟩ := fillPositional_of_length_le ps hk
  unfold positionalOutcome positionalDefects
  rw [List.drop_eq_nil_of_le hk, List.zipIdx_nil, fillPositional_nil, hm, hh, hr,
    Nat.sub_eq_zero_of_le hk, if_neg (by omega)]
  rfl

theorem fillPositional_eq_of_nil {call : Call} {k : Nat} (hk : k < call.args.length) :
    fillPositional call ([].zipIdx k) ((call.args.drop k).zipIdx k) =
      positionalOutcome call [] k := by
  have hleft : 0 < call.args.length - k := by omega
  unfold positionalOutcome
  rw [List.zipIdx_nil, positionalDefects_nil, if_pos hleft, List.drop_eq_getElem_cons hk,
    List.zipIdx_cons]
  rfl

/-- A parameter filled by position defers to those behind it. -/
theorem fillPositional_eq_of_isPositional {call : Call} {p : Param} {ps : List Param} {k : Nat}
    (hpos : p.kind.isPositional = true) (hk : k < call.args.length)
    (ih : fillPositional call (ps.zipIdx (k + 1)) ((call.args.drop (k + 1)).zipIdx (k + 1)) =
      positionalOutcome call ps (k + 1)) :
    fillPositional call ((p :: ps).zipIdx k) ((call.args.drop k).zipIdx k) =
      positionalOutcome call (p :: ps) k := by
  have hreach : isReached call.args.length (p, k) = true := by simp [isReached, hpos, hk]
  have hheld : heldByPosition call.args (p, k) = [⟨k, .positional k, call.args[k]⟩] := by
    simp [heldByPosition, hpos, hk]
  unfold positionalOutcome at ih ⊢
  rw [List.drop_eq_getElem_cons hk, List.zipIdx_cons, List.zipIdx_cons,
    positionalDefects_cons hpos hk, fillPositional_of_isPositional hpos hk, ih]
  cases multipleValues? call.args.length call (p, k) with
  | some e => rfl
  | none =>
    rw [List.flatMap_cons, hheld, List.filter_cons, hreach]
    cases positionalDefects call (call.args.length - (k + 1)) (ps.zipIdx (k + 1)) <;> rfl

/-- At a parameter that is not filled by position the step ends: nothing behind it is reached. -/
theorem fillPositional_eq_of_not_isPositional {call : Call} {p : Param} {ps : List Param} {k : Nat}
    (hpos : ¬ p.kind.isPositional = true) (hp : ∀ q ∈ ps, Follows p q)
    (hk : k < call.args.length) :
    fillPositional call ((p :: ps).zipIdx k) ((call.args.drop k).zipIdx k) =
      positionalOutcome call (p :: ps) k := by
  have hrest {x : Param × Nat} (hx : x ∈ ps.zipIdx (k + 1)) := not_reached_of_follows hpos hp hx
  have hnone : ∀ x ∈ (p :: ps).zipIdx k, x.1.kind.isPositional = false := by
    rw [List.zipIdx_cons]
    exact List.forall_mem_cons.2 ⟨by simpa using hpos, fun x hx => (hrest hx).1⟩
  have hany : (ps.zipIdx (k + 1)).any (·.1.kind = .varPositional) = false :=
    List.any_eq_false.2 fun x hx => by simp [(hrest hx).2]
  have hleft : 0 < call.args.length - k := by omega
  unfold positionalOutcome
  rw [positionalDefects_of_not_isPositional hnone, List.zipIdx_cons,
    List.drop_eq_getElem_cons hk, List.zipIdx_cons, List.any_cons, hany, fillPositional]
  cases hkind : p.kind with
  | positionalOnly => simp [hkind, ParamKind.isPositional] at hpos
  | positionalOrKeyword => simp [hkind, ParamKind.isPositional] at hpos
  | keywordOnly => simp [hleft, rejectFirst]
  | varKeyword => simp [hleft, rejectFirst]
  | varPositional =>
    have hh : (ps.zipIdx (k + 1)).flatMap (heldByPosition call.args) = [] :=
      List.flatMap_eq_nil_iff.2 fun x hx => by simp [heldByPosition, hrest hx]
    have hr : (ps.zipIdx (k + 1)).filter (fun x => !isReached call.args.length x) =
        ps.zipIdx (k + 1) :=
      List.filter_eq_self.2 fun x hx => by simp [isReached, hrest hx]
    have hd : call.args.zipIdx.drop k =
        (call.args[k], k) :: (call.args.drop (k + 1)).zipIdx (k + 1) := by
      rw [← zipIdx_drop, List.drop_eq_getElem_cons hk, List.zipIdx_cons]
    rw [List.flatMap_cons, hh, List.filter_cons, hr]
    simp [hkind, heldByPosition, isReached, hk, hd, ParamKind.isPositional, rejectFirst]

theorem fillPositional_eq (call : Call) {ps : List Param} (hps : ps.Pairwise Follows) (k : Nat) :
    fillPositional call (ps.zipIdx k) ((call.args.drop k).zipIdx k) =
      positionalOutcome call ps k := by
  induction ps generalizing k with
  | nil =>
    rcases Nat.lt_or_ge k call.args.length with hk | hk
    · exact fillPositional_eq_of_nil hk
    · exact fillPositional_eq_of_length_le [] hk
  | cons p ps ih =>
    obtain ⟨hp, hps⟩ := List.pairwise_cons.1 hps
    rcases Nat.lt_or_ge k call.args.length with hk | hk
    · by_cases hpos : p.kind.isPositional = true
      · exact fillPositional_eq_of_isPositional hpos hk (ih hps (k + 1))
      · exact fillPositional_eq_of_not_isPositional hpos hp hk
    · exact fillPositional_eq_of_length_le (p :: ps) hk

/-! ## The step by name and default -/

/-- What the step by name and default binds to a parameter. -/
def heldByName (call : Call) : Param × Nat → List Bound
  | (p, i) => if p.kind.isVariadic then [] else ((takenOpen? call p).map (Bound.mk i)).toList

/-- The defect that the step by name and default can meet at a parameter. -/
def nameDefect? (collects : Bool) (call : Call) (p : Param) : Option Rejection :=
  if p.kind.isVariadic then none else openDefect? collects call p

theorem fillNamed_eq (call : Call) (collects : Bool) (p : Param) :
    fillNamed call collects p =
      rejectFirst (nameDefect? collects call p).toList
        (if p.kind.isVariadic then none else takenOpen? call p) := by
  unfold fillNamed nameDefect? openDefect? takenOpen? fillNamed.fromDefault
  simp only [← Call.hasKeyword_iff, Call.hasKeyword]
  cases hk : p.kind <;> cases call.keyword? p.name <;> cases p.default <;> cases collects <;>
    simp [ParamKind.isVariadic, ParamKind.isNamed, rejectFirst]

theorem fillAllNamed_eq (call : Call) (collects : Bool) (rest : List (Param × Nat)) :
    fillAllNamed call collects rest =
      rejectFirst (rest.filterMap fun x => nameDefect? collects call x.1)
        (rest.flatMap (heldByName call)) := by
  induction rest with
  | nil => rfl
  | cons x rest ih =>
    obtain ⟨p, i⟩ := x
    have hheld : heldByName call (p, i) =
        ((if p.kind.isVariadic then none else takenOpen? call p).map (Bound.mk i)).toList := by
      simp only [heldByName]
      split <;> rfl
    rw [fillAllNamed, fillNamed_eq, ih, List.filterMap_cons, List.flatMap_cons, hheld]
    cases nameDefect? collects call p with
    | some e => rfl
    | none => cases rest.filterMap fun x => nameDefect? collects call x.1 <;> rfl

/-! ## The step of surplus keywords -/

/-- What the step of surplus keywords binds to a parameter. -/
def heldAsSurplus (s : Signature) (call : Call) : Param × Nat → List Bound
  | (p, i) =>
    if p.kind = .varKeyword then (s.unaccepted call).map fun (name, v) => ⟨i, .keyword name, v⟩
    else []

theorem nodup_zipIdx {α : Type} (l : List α) : l.zipIdx.Nodup := by
  refine List.Nodup.of_map Prod.snd ?_
  rw [List.zipIdx_map_snd]
  exact List.nodup_range'

/-- Where one element alone is mapped to anything, the others do not count. -/
theorem flatMap_zipIdx_of_unique {α β : Type} {l : List α} {f : α × Nat → List β} {a : α} {i : Nat}
    (hi : l[i]? = some a) (h : ∀ b j, l[j]? = some b → j ≠ i → f (b, j) = []) :
    l.zipIdx.flatMap f = f (a, i) := by
  have hother : ∀ x ∈ l.zipIdx, x ≠ (a, i) → f x = [] := by
    intro x hx hne
    rw [List.mem_zipIdx_iff_getElem?] at hx
    refine h x.1 x.2 hx fun he => hne ?_
    rw [he, hi] at hx
    exact Prod.ext (Option.some.inj hx).symm he
  obtain ⟨before, behind, hsplit⟩ := List.append_of_mem (List.mk_mem_zipIdx_iff_getElem?.2 hi)
  have hn := nodup_zipIdx l
  rw [hsplit, List.nodup_middle, List.nodup_cons, List.mem_append, not_or] at hn
  have hbefore : before.flatMap f = [] := List.flatMap_eq_nil_iff.2 fun x hx =>
    hother x (by simp [hsplit, hx]) fun he => hn.1.1 (he ▸ hx)
  have hbehind : behind.flatMap f = [] := List.flatMap_eq_nil_iff.2 fun x hx =>
    hother x (by simp [hsplit, hx]) fun he => hn.1.2 (he ▸ hx)
  rw [hsplit, List.flatMap_append, List.flatMap_cons, hbefore, hbehind, List.nil_append,
    List.append_nil]

theorem fillSurplus_eq (s : Signature) (call : Call) :
    s.fillSurplus call =
      rejectFirst (s.surplusDefects call) (s.params.zipIdx.flatMap (s.heldAsSurplus call)) := by
  unfold fillSurplus surplusDefects
  rw [surplus_eq_unaccepted]
  cases hc : s.collector? with
  | some i => 
    obtain ⟨hlt, hp, -⟩ := List.findIdx?_eq_some_iff_getElem.1 hc
    have hcol : s.collectsKeywords = true :=
      List.any_eq_true.2 ⟨_, List.getElem_mem hlt, hp⟩
    have hkind := of_decide_eq_true hp
    have hunique : ∀ q j, s.params[j]? = some q → j ≠ i → s.heldAsSurplus call (q, j) = [] := by
      intro q j hq hne
      refine if_neg fun hk => hne ?_
      exact s.index_unique_of_isVariadic hq (List.getElem?_eq_getElem hlt) (hk.trans hkind.symm)
        (by rw [hk]; rfl)
    rw [flatMap_zipIdx_of_unique (List.getElem?_eq_getElem hlt) hunique, hcol, if_pos rfl]
    simp [heldAsSurplus, hkind, rejectFirst]
  | none =>
    have hk := List.findIdx?_eq_none_iff.1 hc
    have hcol : s.collectsKeywords = false :=
      List.any_eq_false.2 fun p hp => by simpa using hk p hp
    have hnone : s.params.zipIdx.flatMap (s.heldAsSurplus call) = [] :=
      List.flatMap_eq_nil_iff.2 fun x hx =>
        if_neg (of_decide_eq_false (hk x.1 (List.fst_mem_of_mem_zipIdx hx)))
    rw [hcol, hnone]
    cases s.unaccepted call <;> rfl

end Signature
end CallContract
