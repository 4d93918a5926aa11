import CallContract.Proofs.Signatures.Lists

/-!
# Declarable parameter lists

Which lists a signature can have is said of the list as a whole, pair by pair and at any distance
(`Declarable`). Reading compares each parameter with its neighbour and with what it remembers of the
rest. The two agree because of what is known of the parameters already read: they are in order, so
that the last of them speaks for all.

**Blame.** The same rules say what a parameter breaks, given those before it (`Breaks`). Of several
the first in the order of report is reported (`BreaksFirst`), and the parameter blamed is the first
one that breaks any.

**Results.**
* `settles_defectAfter`: the defect of a parameter is the first rule that it breaks.
* `declarable_iff`: a list without a defect is declarable.
* `firstDefect_eq_some_iff`: the parameter that a defect is about.
* `ofParams_accepts_or_blames`: which lists are accepted, and what is reported of all others.
-/
namespace CallContract.Signature

/-! ## Rules -/

/-- A parameter list that a function could declare. -/
structure Declarable (ps : List Param) : Prop where
  named : ∀ p ∈ ps, p.name ≠ ""
  distinct : ps.Pairwise (·.name ≠ ·.name)
  ordered : ps.Pairwise (·.kind.rank ≤ ·.kind.rank)
  varPositional : ps.countP (·.kind = .varPositional) ≤ 1
  varKeyword : ps.countP (·.kind = .varKeyword) ≤ 1
  required : ∀ p ∈ ps, p.kind.isVariadic = true → p.default = none
  /-- Behind a default that stands for a positional argument all of these have one. -/
  defaulted : ps.Pairwise fun p q => p.kind.isPositional = true → q.kind.isPositional = true →
    p.default.isSome = true → q.default.isSome = true

/-- A rule that a parameter breaks, given all those before it, and what is reported of that. -/
inductive Breaks (before : List Param) (p : Param) : Defect → Prop where
  | emptyName (h : p.name = "") : Breaks before p (.emptyName before.length)
  | duplicateName {q : Param} (hq : q ∈ before) (h : q.name = p.name) :
      Breaks before p (.duplicateName p.name)
  /-- Reported is the kind right before, whichever parameter belongs behind this one. -/
  | wrongOrder {q last : Param} (hq : q ∈ before) (h : p.kind.rank < q.kind.rank)
      (hl : before.getLast? = some last) : Breaks before p (.wrongOrder p.name p.kind last.kind)
  | duplicateVariadic {q : Param} (hq : q ∈ before) (h : q.kind = p.kind)
      (hv : p.kind.isVariadic = true) : Breaks before p (.duplicateVariadic p.name p.kind)
  | variadicDefault (hv : p.kind.isVariadic = true) (hd : p.default.isSome = true) :
      Breaks before p (.variadicDefault p.name p.kind)
  | requiredAfterDefault {q : Param} (hq : q ∈ before) (hk : q.kind.isPositional = true)
      (h : q.default.isSome = true) (hp : p.kind.isPositional = true) (hd : p.default = none) :
      Breaks before p (.requiredAfterDefault p.name)

/-- The place of a rule in the order of report. -/
def Defect.precedence : Defect → Nat
  | .emptyName _ => 0
  | .duplicateName _ => 1
  | .wrongOrder .. => 2
  | .duplicateVariadic .. => 3
  | .variadicDefault .. => 4
  | .requiredAfterDefault _ => 5

/-- The first rule that a parameter breaks. -/
structure BreaksFirst (before : List Param) (p : Param) (e : Defect) : Prop where
  breaks : Breaks before p e
  first : ∀ e', Breaks before p e' → e.precedence ≤ e'.precedence

/-- What is to be reported of a parameter: the first rule that it breaks, or nothing if it breaks
none. -/
def Settles (before : List Param) (p : Param) : Option Defect → Prop
  | some e => BreaksFirst before p e
  | none => ∀ e, ¬ Breaks before p e

/-! ## One parameter

The rules are gone through in the order of report: what is known to be kept moves the first rule
that can be broken on by one. -/

namespace Breaks

variable {before : List Param} {p : Param} {e : Defect}

theorem one_le (h : Breaks before p e) (hn : p.name ≠ "") : 1 ≤ e.precedence := by
  cases h with
  | emptyName h => exact absurd h hn
  | _ => simp [Defect.precedence]

theorem two_le (h : Breaks before p e) (hn : p.name ≠ "") (hd : ∀ q ∈ before, q.name ≠ p.name) :
    2 ≤ e.precedence := by
  have := h.one_le hn
  cases h with
  | emptyName => exact absurd this (by simp [Defect.precedence])
  | duplicateName hq h => exact absurd h (hd _ hq)
  | _ => simp [Defect.precedence]

theorem three_le (h : Breaks before p e) (hn : p.name ≠ "") (hd : ∀ q ∈ before, q.name ≠ p.name)
    (ho : ∀ q ∈ before, q.kind.rank ≤ p.kind.rank) : 3 ≤ e.precedence := by
  have := h.two_le hn hd
  cases h with
  | wrongOrder hq h => exact absurd h (Nat.not_lt.2 (ho _ hq))
  | emptyName | duplicateName => exact absurd this (by simp [Defect.precedence])
  | _ => simp [Defect.precedence]

theorem four_le (h : Breaks before p e) (hn : p.name ≠ "") (hd : ∀ q ∈ before, q.name ≠ p.name)
    (hf : ∀ q ∈ before, Follows q p) : 4 ≤ e.precedence := by
  have := h.three_le hn hd fun q hq => (hf q hq).1
  cases h with
  | duplicateVariadic hq h hv => exact absurd h ((hf _ hq).2 (h ▸ hv))
  | variadicDefault | requiredAfterDefault => simp [Defect.precedence]
  | _ => exact absurd this (by simp [Defect.precedence])

end Breaks

theorem breaksFirst_of_orderDefect {before : List Param} {p last : Param} {e : Defect}
    (hb : before.Pairwise Follows) (hn : p.name ≠ "") (hd : ∀ q ∈ before, q.name ≠ p.name)
    (hl : before.getLast? = some last) (h : orderDefect last.kind p = some e) :
    BreaksFirst before p e := by
  have hm : last ∈ before := List.mem_of_getLast? hl
  unfold orderDefect at h
  split at h
  · rename_i hlt
    cases h
    exact ⟨.wrongOrder hm hlt hl, fun e' he => he.two_le hn hd⟩
  · rename_i hle
    split at h
    · rename_i hk
      cases h
      refine ⟨.duplicateVariadic hm hk.1.symm hk.2, fun e' he => he.three_le hn hd fun q hq => ?_⟩
      rcases eq_or_follows_last hb hl hq with rfl | hf
      · omega
      · have := hf.1
        omega
    · cases h

/-- The defect of a parameter is the first rule that it breaks. -/
theorem settles_defectAfter {before : List Param} (hb : before.Pairwise Follows) (p : Param) :
    Settles before p (defectAfter before p) := by
  unfold defectAfter
  split
  · rename_i hn
    exact ⟨.emptyName hn, fun e' _ => Nat.zero_le _⟩
  rename_i hn
  split
  · rename_i hd
    obtain ⟨q, hq, he⟩ := List.any_eq_true.1 hd
    exact ⟨.duplicateName hq (eq_of_beq he), fun e' he' => he'.one_le hn⟩
  rename_i hd
  have hd : ∀ q ∈ before, q.name ≠ p.name := fun q hq he =>
    hd (List.any_eq_true.2 ⟨q, hq, beq_iff_eq.2 he⟩)
  split
  · rename_i e ho
    obtain ⟨last, hl, ho⟩ := Option.bind_eq_some_iff.1 ho
    exact breaksFirst_of_orderDefect hb hn hd hl ho
  rename_i ho
  have hf : ∀ q ∈ before, Follows q p := fun q hq => follows_of_orderDefect hb ho hq
  split
  · rename_i hv
    rw [Bool.and_eq_true] at hv
    exact ⟨.variadicDefault hv.1 hv.2, fun e' he => he.four_le hn hd hf⟩
  rename_i hv
  have hv : ¬ (p.kind.isVariadic = true ∧ p.default.isSome = true) := by
    simpa [Param.isDefaulted] using hv
  split
  · rename_i hr
    simp only [Bool.and_eq_true, List.any_eq_true, Param.isDefaulted] at hr
    obtain ⟨⟨hp, hnone⟩, q, hq, hk, hs⟩ := hr
    refine ⟨.requiredAfterDefault hq hk hs hp (by simpa using hnone), fun e' he => ?_⟩
    have := he.four_le hn hd hf
    cases he with
    | variadicDefault h h' => exact absurd ⟨h, h'⟩ hv
    | requiredAfterDefault => exact Nat.le_refl _
    | _ => exact absurd this (by simp [Defect.precedence])
  · rename_i hr
    intro e he
    have := he.four_le hn hd hf
    cases he with
    | variadicDefault h h' => exact hv ⟨h, h'⟩
    | requiredAfterDefault hq hk hs hp hnone =>
      refine hr ?_
      simp only [Bool.and_eq_true, List.any_eq_true, Param.isDefaulted]
      exact ⟨⟨hp, by simp [hnone]⟩, _, hq, hk, hs⟩
    | _ => exact absurd this (by simp [Defect.precedence])

theorem defectAfter_eq_none_iff {before : List Param} (hb : before.Pairwise Follows) {p : Param} :
    defectAfter before p = none ↔ ∀ e, ¬ Breaks before p e := by
  have h := settles_defectAfter hb p
  cases hd : defectAfter before p with
  | none =>
    rw [hd] at h
    exact iff_of_true rfl h
  | some e =>
    rw [hd] at h
    simp only [reduceCtorEq, false_iff]
    exact fun hno => hno e h.breaks

/-! ## All parameters -/

theorem pairwise_concat {α : Type} {R : α → α → Prop} {l : List α} {a : α} :
    (l ++ [a]).Pairwise R ↔ l.Pairwise R ∧ ∀ b ∈ l, R b a := by
  simp [List.pairwise_append]

theorem countP_concat_le_one {α : Type} {f : α → Bool} {l : List α} {a : α} :
    (l ++ [a]).countP f ≤ 1 ↔ l.countP f ≤ 1 ∧ ∀ b ∈ l, f b = true → ¬ f a = true := by
  have hpos : 0 < l.countP f ↔ ∃ b ∈ l, f b = true := List.countP_pos_iff
  rw [List.countP_append, List.countP_singleton]
  by_cases ha : f a = true
  · have hno : (∀ b ∈ l, f b = true → ¬ f a = true) ↔ l.countP f = 0 := by
      rw [List.countP_eq_zero]
      exact forall₂_congr fun b _ => ⟨fun h hb => h hb ha, fun h hb => absurd hb h⟩
    rw [hno, if_pos ha]
    omega
  · simp [ha]

theorem Declarable.front {ps : List Param} {p : Param} (h : Declarable (ps ++ [p])) :
    Declarable ps where
  named q hq := h.named q (List.mem_append_left _ hq)
  distinct := (pairwise_concat.1 h.distinct).1
  ordered := (pairwise_concat.1 h.ordered).1
  varPositional := (countP_concat_le_one.1 h.varPositional).1
  varKeyword := (countP_concat_le_one.1 h.varKeyword).1
  required q hq := h.required q (List.mem_append_left _ hq)
  defaulted := (pairwise_concat.1 h.defaulted).1

theorem Declarable.not_breaks {ps : List Param} {p : Param} (h : Declarable (ps ++ [p]))
    (e : Defect) : ¬ Breaks ps p e := by
  have hp : p ∈ ps ++ [p] := List.mem_append_right _ (List.mem_singleton_self p)
  intro he
  cases he with
  | emptyName hn => exact h.named p hp hn
  | duplicateName hq hn => exact (pairwise_concat.1 h.distinct).2 _ hq hn
  | wrongOrder hq hlt => exact Nat.not_lt.2 ((pairwise_concat.1 h.ordered).2 _ hq) hlt
  | duplicateVariadic hq hk hv =>
    rcases ParamKind.isVariadic_iff.1 hv with hkind | hkind
    · refine (countP_concat_le_one.1 h.varPositional).2 _ hq ?_ ?_ <;> simp [hk, hkind]
    · refine (countP_concat_le_one.1 h.varKeyword).2 _ hq ?_ ?_ <;> simp [hk, hkind]
  | variadicDefault hv hd => simp [h.required p hp hv] at hd
  | requiredAfterDefault hq hk hs hkp hd =>
    have := (pairwise_concat.1 h.defaulted).2 _ hq hk hkp hs
    simp [hd] at this

theorem declarable_concat {ps : List Param} {p : Param} :
    Declarable (ps ++ [p]) ↔ Declarable ps ∧ ∀ e, ¬ Breaks ps p e := by
  refine ⟨fun h => ⟨h.front, h.not_breaks⟩, ?_⟩
  rintro ⟨h, hno⟩
  have hvariadic {k : ParamKind} (hk : k.isVariadic = true) {q : Param} (hq : q ∈ ps)
      (hqk : decide (q.kind = k) = true) : ¬ decide (p.kind = k) = true := by
    intro hpk
    have hqk := of_decide_eq_true hqk
    obtain rfl := of_decide_eq_true hpk
    exact hno _ (.duplicateVariadic hq hqk hk)
  refine ⟨?_, pairwise_concat.2 ⟨h.distinct, fun q hq hn => hno _ (.duplicateName hq hn)⟩,
    pairwise_concat.2 ⟨h.ordered, fun q hq => ?_⟩,
    countP_concat_le_one.2 ⟨h.varPositional, fun q hq => hvariadic rfl hq⟩,
    countP_concat_le_one.2 ⟨h.varKeyword, fun q hq => hvariadic rfl hq⟩, ?_,
    pairwise_concat.2 ⟨h.defaulted, fun q hq hk hkp hs => ?_⟩⟩
  · rw [List.forall_mem_append, List.forall_mem_singleton]
    exact ⟨h.named, fun hn => hno _ (.emptyName hn)⟩
  · by_contra hlt
    cases hl : ps.getLast? with
    | none =>
      rw [List.getLast?_eq_none_iff.1 hl] at hq
      cases hq
    | some last => exact hno _ (.wrongOrder hq (Nat.not_le.1 hlt) hl)
  · rw [List.forall_mem_append, List.forall_mem_singleton]
    refine ⟨h.required, fun hv => ?_⟩
    by_contra hd
    exact hno _ (.variadicDefault hv (Option.isSome_iff_ne_none.2 hd))
  · by_contra hd
    exact hno _ (.requiredAfterDefault hq hk hs hkp (Option.not_isSome_iff_eq_none.1 hd))

/-- A list has no defect exactly if a function could declare it. -/
theorem declarable_iff {ps : List Param} : Declarable ps ↔ firstDefect [] ps = none := by
  induction ps using List.reverseRecOn with
  | nil => exact iff_of_true (by constructor <;> simp) rfl
  | append_singleton ps p ih =>
    rw [declarable_concat, firstDefect_concat_eq_none, List.nil_append, ih]
    exact and_congr_right fun hps => (defectAfter_eq_none_iff (pairwise_follows hps)).symm

/-! ## Blame -/

/-- A defect is of the first parameter that has one, given those before it. -/
theorem firstDefect_eq_some_iff {before ps : List Param} {e : Defect} :
    firstDefect before ps = some e ↔
      ∃ k p, ps[k]? = some p ∧ firstDefect before (ps.take k) = none ∧
        defectAfter (before ++ ps.take k) p = some e := by
  induction ps generalizing before with
  | nil => simp [firstDefect]
  | cons q ps ih =>
    rw [firstDefect]
    cases hq : defectAfter before q with
    | some e' =>
      refine ⟨fun h => ⟨0, q, rfl, rfl, ?_⟩, ?_⟩
      · simpa [hq] using h
      · rintro ⟨k, p, hp, hk, he⟩
        cases k with
        | zero =>
          cases hp
          simpa [hq] using he
        | succ k => simp [firstDefect, hq] at hk
    | none =>
      dsimp only
      rw [ih]
      refine ⟨?_, ?_⟩
      · rintro ⟨k, p, hp, hk, he⟩
        refine ⟨k + 1, p, hp, ?_, ?_⟩
        · simpa [firstDefect, hq] using hk
        · simpa using he
      · rintro ⟨k, p, hp, hk, he⟩
        cases k with
        | zero =>
          cases hp
          simp [hq] at he
        | succ k => exact ⟨k, p, hp, by simpa [firstDefect, hq] using hk, by simpa using he⟩

/-- What stands behind the parameter blamed has no part in the report. -/
theorem firstDefect_take_append {ps : List Param} {k : Nat} {p : Param} {e : Defect}
    (hp : ps[k]? = some p) (hk : firstDefect [] (ps.take k) = none)
    (he : defectAfter (ps.take k) p = some e) (rest : List Param) :
    firstDefect [] (ps.take (k + 1) ++ rest) = some e := by
  rw [List.take_add_one, hp, Option.toList_some, List.append_assoc, firstDefect_append, hk]
  simp [firstDefect, he]

/-! ## Signatures -/

theorem ofParams_eq_ok_iff {ps : List Param} {s : Signature} :
    ofParams ps = .ok s ↔ s.params = ps := by
  refine ⟨ofParams_params, ?_⟩
  rintro rfl
  rw [ofParams]
  split
  · rfl
  · rename_i hd
    cases s.sound.symm.trans hd

theorem exists_ofParams_eq_ok_iff {ps : List Param} :
    (∃ s, ofParams ps = .ok s) ↔ firstDefect [] ps = none := by
  simp only [ofParams_eq_ok_iff]
  exact ⟨fun ⟨s, hs⟩ => hs ▸ s.sound, fun h => ⟨⟨ps, h⟩, rfl⟩⟩

theorem ofParams_eq_error_iff {ps : List Param} {e : Defect} :
    ofParams ps = .error e ↔ firstDefect [] ps = some e := by
  rw [ofParams]
  split <;> simp_all

theorem position?_of_getElem? (s : Signature) {i : Nat} {p : Param} (hp : s.params[i]? = some p) :
    s.position? p.name = some i := by
  obtain ⟨hi, hget⟩ := List.getElem?_eq_some_iff.1 hp
  refine List.findIdx?_eq_some_iff_getElem.2 ⟨hi, by simp [hget], fun j hj => ?_⟩
  have hq := List.getElem?_eq_getElem (Nat.lt_trans hj hi)
  simpa using fun he => Nat.ne_of_lt hj (s.index_unique_of_name hq hp he)

theorem position?_eq_none {s : Signature} {name : String} (h : ∀ p ∈ s.params, p.name ≠ name) :
    s.position? name = none :=
  List.findIdx?_eq_none_iff.2 fun p hp => by simpa using h p hp

/-- A list is accepted exactly if a function could declare it. Of any other list the first parameter
that cannot follow those before it is blamed, for the first rule that it breaks and whatever stands
behind it. In an accepted list a name has the position of its parameter, and no other name has
one. -/
theorem ofParams_accepts_or_blames (ps : List Param) :
    ((∃ s, ofParams ps = .ok s ∧ s.params = ps) ↔ Declarable ps) ∧
    (∀ e, ofParams ps = .error e → ∃ k p, ps[k]? = some p ∧
      (∃ s, ofParams (ps.take k) = .ok s) ∧
      (∀ rest, ofParams (ps.take (k + 1) ++ rest) = .error e) ∧
      BreaksFirst (ps.take k) p e) ∧
    (∀ s, ofParams ps = .ok s → s.params = ps ∧
      (∀ i p, ps[i]? = some p → s.position? p.name = some i) ∧
      ∀ name, (∀ p ∈ ps, p.name ≠ name) → s.position? name = none) := by
  refine ⟨?_, fun e h => ?_, fun s h => ?_⟩
  · rw [declarable_iff, ← exists_ofParams_eq_ok_iff]
    exact exists_congr fun s => and_iff_left_of_imp ofParams_params
  · obtain ⟨k, p, hp, hk, he⟩ := firstDefect_eq_some_iff.1 (ofParams_eq_error_iff.1 h)
    rw [List.nil_append] at he
    refine ⟨k, p, hp, exists_ofParams_eq_ok_iff.2 hk, fun rest => ?_, ?_⟩
    · exact ofParams_eq_error_iff.2 (firstDefect_take_append hp hk he rest)
    · have := settles_defectAfter (pairwise_follows hk) p
      rwa [he] at this
  · obtain rfl := ofParams_params h
    exact ⟨rfl, fun i p => s.position?_of_getElem?, fun name => position?_eq_none⟩

/-- The third parameter repeats a name, stands behind a kind that belongs after its own and lacks the
default that an earlier one has; the name is reported, and the empty name behind it is not. -/
theorem repeated_name_blamed :
    let ps : List Param :=
      [⟨"a", .positionalOnly, some (.int 1), none⟩, ⟨"rest", .varPositional, none, none⟩,
        ⟨"a", .positionalOrKeyword, none, none⟩, ⟨"", .varKeyword, some .none, none⟩]
    ofParams ps = .error (.duplicateName "a") ∧
      (∃ k p, ps[k]? = some p ∧ (∃ s, ofParams (ps.take k) = .ok s) ∧
        (∀ rest, ofParams (ps.take (k + 1) ++ rest) = .error (.duplicateName "a")) ∧
        BreaksFirst (ps.take k) p (.duplicateName "a")) ∧
      Breaks (ps.take 2) ⟨"a", .positionalOrKeyword, none, none⟩
        (.wrongOrder "a" .positionalOrKeyword .varPositional) ∧
      ∃ s, ofParams (ps.take 2) = .ok s ∧ s.position? "rest" = some 1 ∧
        s.position? "b" = none := by
  intro ps
  obtain ⟨-, hblame, -⟩ := ofParams_accepts_or_blames ps
  obtain ⟨-, -, haccept⟩ := ofParams_accepts_or_blames (ps.take 2)
  obtain ⟨-, hpos, hnone⟩ := haccept _ rfl
  refine ⟨rfl, hblame _ rfl, ?_, _, rfl, hpos 1 ⟨"rest", .varPositional, none, none⟩ rfl, ?_⟩
  · have hl : (ps.take 2).getLast? = some ⟨"rest", .varPositional, none, none⟩ := rfl
    exact .wrongOrder (List.mem_of_getLast? hl) (by decide) hl
  · exact hnone "b" (by simp [ps])

end CallContract.Signature
