import CallContract.Proofs.Binding.Steps

/-!
# Binding reports the first defect

The three steps put together. A defect of the positional step hides those of the steps behind it, as
a defect early in `defects` hides the later ones. What the steps bind comes step by step, which is
the order of parameters as well: no parameter that the positional step reaches comes after one that
it does not, and the parameter that collects surplus keywords is the last one.

**Results.**
* `bind_eq`: a call is rejected for its first defect, or else bound as `table` says.
* `bind_reports_first_defect`: binding accepts exactly the calls without a defect.
-/
namespace CallContract
namespace Signature

/-! ## Defects of the steps -/

theorem lt_filledCount_iff (s : Signature) (call : Call) {p : Param} {i : Nat}
    (hp : s.params[i]? = some p) :
    i < s.filledCount call ↔ p.kind.isPositional = true ∧ i < call.args.length := by
  rw [s.isPositional_iff_lt hp, filledCount]
  omega

theorem positionalDefects_eq (s : Signature) (call : Call) :
    positionalDefects call call.args.length s.params.zipIdx =
      s.params.zipIdx.filterMap (multipleValues? (s.filledCount call) call) ++
        if s.positionalCount < call.args.length ∧ s.collectsPositional = false then
          [.tooManyPositional]
        else [] := by
  have hm : s.params.zipIdx.filterMap (multipleValues? call.args.length call) =
      s.params.zipIdx.filterMap (multipleValues? (s.filledCount call) call) := by
    refine List.filterMap_congr fun ⟨p, i⟩ hx => ?_
    have hi := s.lt_filledCount_iff call (List.mk_mem_zipIdx_iff_getElem?.1 hx)
    simp only [multipleValues?]
    congr 1
    rw [hi, eq_iff_iff]
    refine ⟨?_, ?_⟩
    · intro h'
      obtain ⟨hlt, hk, hn⟩ := h'
      exact ⟨⟨by rw [hk]; rfl, hlt⟩, hk, hn⟩
    · intro h'
      obtain ⟨⟨-, hlt⟩, hk, hn⟩ := h'
      exact ⟨hlt, hk, hn⟩
  have hc : s.params.zipIdx.countP (·.1.kind.isPositional) = s.positionalCount := by
    calc s.params.zipIdx.countP (·.1.kind.isPositional)
        = (s.params.zipIdx.map Prod.fst).countP (·.kind.isPositional) := by
          rw [List.countP_map]; rfl
      _ = s.positionalCount := by rw [List.zipIdx_map_fst]; rfl
  have ha : s.params.zipIdx.any (·.1.kind = .varPositional) = s.collectsPositional := by
    calc s.params.zipIdx.any (·.1.kind = .varPositional)
        = (s.params.zipIdx.map Prod.fst).any (·.kind = .varPositional) := by
          rw [List.any_map]; rfl
      _ = s.collectsPositional := by rw [List.zipIdx_map_fst]; rfl
  rw [positionalDefects, hm, hc, ha]

theorem nameDefects_eq (s : Signature) (call : Call) (collects : Bool) :
    (s.params.zipIdx.filter fun x => !isReached call.args.length x).filterMap
        (fun x => nameDefect? collects call x.1) =
      s.params.zipIdx.filterMap fun (p, i) =>
        if i < s.filledCount call ∨ p.kind.isVariadic = true then none
        else openDefect? collects call p := by
  rw [List.filterMap_filter]
  refine List.filterMap_congr fun ⟨p, i⟩ hx => ?_
  have hi := s.lt_filledCount_iff call (List.mk_mem_zipIdx_iff_getElem?.1 hx)
  simp only [hi, isReached, nameDefect?]
  rcases Nat.lt_or_ge i call.args.length with hlt | hge
  · cases p.kind <;> simp [ParamKind.isVariadic, ParamKind.isPositional, hlt]
  · have hge' : ¬ i < call.args.length := Nat.not_lt.2 hge
    cases p.kind <;> simp [ParamKind.isVariadic, ParamKind.isPositional, hge']

theorem defects_eq (s : Signature) (call : Call) :
    s.defects call =
      call.repeatedKeywords.map .duplicateKeyword ++
        (positionalDefects call call.args.length s.params.zipIdx ++
          ((s.params.zipIdx.filter fun x => !isReached call.args.length x).filterMap
              (fun x => nameDefect? s.collectsKeywords call x.1) ++
            s.surplusDefects call)) := by
  rw [positionalDefects_eq, nameDefects_eq, defects]
  simp only [List.append_assoc]

/-! ## What the steps bind -/

theorem flatMap_filter {α β : Type} (l : List α) (keep : α → Bool) (f : α → List β) :
    (l.filter keep).flatMap f = l.flatMap fun x => if keep x then f x else [] := by
  induction l with
  | nil => rfl
  | cons x l ih =>
    rw [List.filter_cons, List.flatMap_cons, ← ih]
    split <;> simp

/-- Two passes over a list are one where the first has nothing behind what the second has. -/
theorem flatMap_append_flatMap {α β : Type} {l : List α} {f g : α → List β}
    (h : l.Pairwise fun x y => g x = [] ∨ f y = []) :
    l.flatMap f ++ l.flatMap g = l.flatMap fun x => f x ++ g x := by
  induction l with
  | nil => rfl
  | cons x l ih =>
    obtain ⟨hx, hl⟩ := List.pairwise_cons.1 h
    have hswap : l.flatMap f ++ g x = g x ++ l.flatMap f := by
      by_cases hg : g x = []
      · rw [hg, List.append_nil, List.nil_append]
      · have hf : l.flatMap f = [] :=
          List.flatMap_eq_nil_iff.2 fun y hy => (hx y hy).resolve_left hg
        rw [hf, List.append_nil, List.nil_append]
    calc (x :: l).flatMap f ++ (x :: l).flatMap g
        = f x ++ (l.flatMap f ++ g x) ++ l.flatMap g := by simp
      _ = f x ++ (g x ++ l.flatMap f) ++ l.flatMap g := by rw [hswap]
      _ = f x ++ g x ++ (l.flatMap f ++ l.flatMap g) := by simp
      _ = (x :: l).flatMap fun x => f x ++ g x := by rw [ih hl, List.flatMap_cons]

theorem pairwise_zipIdx (s : Signature) :
    s.params.zipIdx.Pairwise fun x y => Follows x.1 y.1 ∧ x.2 < y.2 := by
  rw [List.pairwise_iff_getElem]
  intro i j hi hj h
  have hlen : s.params.zipIdx.length = s.params.length := List.length_zipIdx
  simp only [List.getElem_zipIdx, Nat.zero_add]
  exact ⟨List.pairwise_iff_getElem.1 s.params_follow i j _ _ h, h⟩

/-- The positional step binds nothing behind a parameter that it does not reach. -/
theorem heldByPosition_eq_nil {args : List Value} {x y : Param × Nat}
    (hf : Follows x.1 y.1 ∧ x.2 < y.2) (hx : isReached args.length x = false) :
    heldByPosition args y = [] := by
  obtain ⟨p, i⟩ := x
  obtain ⟨q, j⟩ := y
  obtain ⟨⟨hrank, -⟩, hlt⟩ := hf
  simp only [isReached, Bool.and_eq_false_iff, decide_eq_false_iff_not, Nat.not_lt] at hx
  simp only [heldByPosition]
  rcases hx with hx | hx
  · have hq : q.kind.isPositional = false ∧ q.kind ≠ .varPositional := by
      revert hx hrank
      cases p.kind <;> cases q.kind <;> decide
    rw [hq.1, if_neg hq.2]
    rfl
  · have hj : args.length ≤ j := by simp only at hlt; omega
    simp [List.drop_eq_nil_of_le, hj]

/-- The parameter that collects surplus keywords is the last one. -/
theorem not_follows_varKeyword {p q : Param} (hp : p.kind = .varKeyword) : ¬ Follows p q := by
  intro h'
  obtain ⟨hrank, hne⟩ := h'
  rw [hp] at hrank hne
  revert hrank hne
  cases q.kind <;> decide

theorem held_eq (s : Signature) (call : Call) (x : Param × Nat) :
    s.held call x =
      heldByPosition call.args x ++
        (if !isReached call.args.length x then heldByName call x else []) ++
        s.heldAsSurplus call x := by
  obtain ⟨p, i⟩ := x
  have hreach : isReached call.args.length (p, i) =
      ((p.kind.isPositional || p.kind = .varPositional) && decide (i < call.args.length)) := rfl
  rw [hreach]
  simp only [held, heldByPosition, heldByName, heldAsSurplus, taken?]
  rcases Nat.lt_or_ge i call.args.length with hlt | hge
  · cases p.kind <;> simp [ParamKind.isPositional, ParamKind.isVariadic, hlt]
  · cases p.kind <;>
      simp [ParamKind.isPositional, ParamKind.isVariadic, Nat.not_lt.2 hge]

/-- What the steps bind one after the other is what the parameters hold one after the other. -/
theorem steps_eq_table (s : Signature) (call : Call) :
    s.params.zipIdx.flatMap (heldByPosition call.args) ++
        (s.params.zipIdx.filter fun x => !isReached call.args.length x).flatMap (heldByName call) ++
        s.params.zipIdx.flatMap (s.heldAsSurplus call) =
      s.table call := by
  rw [flatMap_filter, flatMap_append_flatMap, flatMap_append_flatMap, table]
  · exact List.flatMap_congr fun x _ => (held_eq s call x).symm
  · refine s.pairwise_zipIdx.imp fun {x y} h => ?_
    by_cases hk : x.1.kind = .varKeyword
    · exact absurd h.1 (not_follows_varKeyword hk)
    · exact .inl (if_neg hk)
  · refine s.pairwise_zipIdx.imp fun {x y} h => ?_
    cases hx : isReached call.args.length x with
    | true => exact .inl rfl
    | false => exact .inr (heldByPosition_eq_nil h hx)

/-! ## Binding as a whole -/

/-- A call is rejected for its first defect, and bound parameter by parameter without one. -/
theorem bind_eq (s : Signature) (call : Call) :
    s.bind call = rejectFirst (s.defects call) (s.table call) := by
  have hpos := fillPositional_eq call s.params_follow 0
  rw [List.drop_zero, positionalOutcome, Nat.sub_zero] at hpos
  have hcol : s.collector?.isSome = s.collectsKeywords := List.findIdx?_isSome
  rw [bind, firstRepeated_eq_repeatedKeywords, hpos, hcol, defects_eq, ← steps_eq_table]
  cases call.repeatedKeywords with
  | cons name names => rfl
  | nil =>
    simp only [List.head?_nil, List.map_nil, List.nil_append]
    cases positionalDefects call call.args.length s.params.zipIdx with
    | cons e es => rfl
    | nil =>
      generalize s.params.zipIdx.filter (fun x => !isReached call.args.length x) = open_
      change (do
        let byName ← fillAllNamed call s.collectsKeywords open_
        let collected ← s.fillSurplus call
        return _ ++ byName ++ collected) = _
      rw [fillAllNamed_eq, fillSurplus_eq, List.nil_append]
      cases open_.filterMap fun x => nameDefect? s.collectsKeywords call x.1 with
      | cons e es => rfl
      | nil => cases s.surplusDefects call <;> rfl

/-- Binding reports the first of all defects of a call, and accepts exactly the calls that have
none. -/
theorem bind_reports_first_defect (s : Signature) (call : Call) :
    (∀ e, s.bind call = .error e ↔ (s.defects call).head? = some e) ∧
    ((∃ bound, s.bind call = .ok bound) ↔ s.defects call = []) := by
  rw [bind_eq]
  refine ⟨fun e => rejectFirst_eq_error, ?_⟩
  simp only [rejectFirst_eq_ok]
  exact ⟨fun ⟨_, h, _⟩ => h, fun h => ⟨_, h, rfl⟩⟩

end Signature
end CallContract
