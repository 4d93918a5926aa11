import CallContract.Proofs.Binding.KeywordOrder
import CallContract.Proofs.Contracts.Certificates
import CallContract.Proofs.Contracts.Modes

/-!
# Examination and the order of keywords

Calls that bind alike but for the order of surplus keywords pass the same checks. Values that both
calls bind in the same place are examined first and in the same order, so that a failure there is
the same for both. The values collected come behind them: they pass in any order or in none, and
where they do not pass, each call reports the one that it meets first.

**Results.**
* `examine_of_bindAlike`: what the two examinations report, case by case.
* `keyword_order_indifferent`: calls that differ by the order of keywords.
-/
namespace CallContract

/-- The failure is one of a check, on a surplus keyword that the variadic parameter collects. -/
def Failure.ConcernsCollected (e : Failure) (s : Signature) (call : Call) : Prop :=
  e.is .check = true ∧
  ∃ p i name v, s.params[i]? = some p ∧ p.kind = .varKeyword ∧ (name, v) ∈ s.unaccepted call ∧
    e.param? = some ⟨i, p.name⟩ ∧ e.arg? = some ⟨.keyword name, v⟩

/-- Reports of two calls that differ about surplus keywords at most. -/
inductive Signature.ReportAlike (s : Signature) (call : Call) :
    Option Failure → Option Failure → Prop where
  | passes : ReportAlike s call none none
  | same (e : Failure) : ReportAlike s call (some e) (some e)
  | unexpected {name name' : String} {v v' : Value} (h : (name, v) ∈ s.unaccepted call)
      (h' : (name', v') ∈ s.unaccepted call) :
      ReportAlike s call (some (.bindingRejection (.unexpectedKeyword name)))
        (some (.bindingRejection (.unexpectedKeyword name')))
  | collected {e e' : Failure} (h : e.ConcernsCollected s call)
      (h' : e'.ConcernsCollected s call) : ReportAlike s call (some e) (some e')

namespace Contract

variable {c : Contract} {call call' : Call}

theorem concernsCollected_of_judgePair {pair : Bound × Check} {e : Failure}
    (hb : c.signature.IsCollected call pair.1) (h : c.judgePair pair = some e) :
    e.ConcernsCollected c.signature call := by
  obtain ⟨p, name, v, hp, hk, hm, harg⟩ := hb
  obtain ⟨hparam, ha, -⟩ := (Check.judge_reports h).about
  rw [param_of_getElem? hp] at hparam
  exact ⟨Check.judge_is_check h, p, _, name, v, hp, hk, hm, hparam, harg ▸ ha⟩

/-- Values collected in another order pass alike, or what is reported is about them. -/
theorem examineAll_collected {before : List (Bound × Check)} {collected collected' : List Bound}
    (hbefore : ∀ pair ∈ before, Passes pair) (hperm : collected'.Perm collected)
    (hc : ∀ b ∈ collected, c.signature.IsCollected call b) :
    c.signature.ReportAlike call (c.examineAll (before ++ c.pairs collected)).2
      (c.examineAll (before ++ c.pairs collected')).2 := by
  have hpairs : (c.pairs collected').Perm (c.pairs collected) := hperm.flatMap_right _
  rcases c.passes_or_first (c.pairs collected) with
    hp | ⟨front, pair, back, e, hfirst, hfront, hj⟩
  · have hp' : ∀ pair ∈ c.pairs collected', Passes pair := fun pair hmem =>
      hp pair (hpairs.mem_iff.1 hmem)
    rw [examineAll_of_passes (List.forall_mem_append.2 ⟨hbefore, hp⟩),
      examineAll_of_passes (List.forall_mem_append.2 ⟨hbefore, hp'⟩)]
    exact .passes
  · rcases c.passes_or_first (c.pairs collected') with
      hp' | ⟨front', pair', back', e', hfirst', hfront', hj'⟩
    · -- a pair that does not pass is among those of either call
      have hpass := hp' pair (hpairs.mem_iff.2 (by simp [hfirst]))
      cases (judgePair_eq_none.2 hpass).symm.trans hj
    · have hmem : pair ∈ c.pairs collected := by simp [hfirst]
      have hmem' : pair' ∈ c.pairs collected := hpairs.mem_iff.1 (by simp [hfirst'])
      rw [hfirst, hfirst', ← List.append_assoc, ← List.append_assoc,
        examineAll_of_first (List.forall_mem_append.2 ⟨hbefore, hfront⟩) hj,
        examineAll_of_first (List.forall_mem_append.2 ⟨hbefore, hfront'⟩) hj']
      exact .collected (concernsCollected_of_judgePair (hc _ (mem_pairs.1 hmem).1) hj)
        (concernsCollected_of_judgePair (hc _ (mem_pairs.1 hmem').1) hj')

/-- A failure in front of the values collected is met by both calls. -/
theorem examineAll_bound (shared : List Bound) {collected collected' : List Bound}
    (hperm : collected'.Perm collected) (hc : ∀ b ∈ collected, c.signature.IsCollected call b) :
    c.signature.ReportAlike call (c.examineAll (c.pairs (shared ++ collected))).2
      (c.examineAll (c.pairs (shared ++ collected'))).2 := by
  have hsplit (bound : List Bound) : c.pairs (shared ++ bound) = c.pairs shared ++ c.pairs bound :=
    List.flatMap_append
  rw [hsplit, hsplit]
  rcases c.passes_or_first (c.pairs shared) with hp | ⟨front, pair, back, e, hfirst, hfront, hj⟩
  · exact examineAll_collected hp hperm hc
  · rw [hfirst, List.append_assoc, List.append_assoc, List.cons_append, List.cons_append,
      examineAll_of_first hfront hj, examineAll_of_first hfront hj]
    exact .same e

theorem examine_of_bindAlike
    (h : c.signature.BindAlike call (c.signature.bind call) (c.signature.bind call')) :
    c.signature.ReportAlike call (c.examine call).2 (c.examine call').2 := by
  rw [examine, examine]
  generalize c.signature.bind call = outcome, c.signature.bind call' = outcome' at h ⊢
  cases h with
  | bound shared hperm hc => exact examineAll_bound shared hperm hc
  | rejected e => exact .same _
  | unexpected hm hm' => exact .unexpected hm hm'

end Contract

/-- The order of distinct keywords does not matter. The two calls are both bound, with the same
values but for the order of those collected, or both rejected; and every contract of the signature
passes both or fails both, with the same failure unless it is about surplus keywords. -/
theorem Signature.keyword_order_indifferent (s : Signature) {call call' : Call}
    (hn : call.keywords.Nodup) (h : call.Rearranges call') :
    s.BindAlike call (s.bind call) (s.bind call') ∧
    ∀ c : Contract, c.signature = s → s.ReportAlike call (c.examine call).2 (c.examine call').2 := by
  refine ⟨h.binds_alike hn s, ?_⟩
  rintro c rfl
  exact Contract.examine_of_bindAlike (h.binds_alike hn c.signature)

/-- Of an empty text and an integer among the keywords collected as texts, the one that comes first
in the call is reported; the integer that another parameter takes by name may come anywhere. -/
theorem Signature.surplus_reported_in_call_order :
    let a : Param := ⟨"a", .positionalOrKeyword, none, some (.plain .int)⟩
    let options : Param :=
      ⟨"options", .varKeyword, none, some (.refined (.plain .str) [.kind .nonEmpty])⟩
    let call : Call := ⟨[], [("x", .str ""), ("a", .int 1), ("y", .int 3)]⟩
    let call' : Call := ⟨[], [("y", .int 3), ("x", .str ""), ("a", .int 1)]⟩
    ∃ c, Contract.ofParams "f" [a, options] = .ok c ∧
      c.signature.BindAlike call (c.signature.bind call) (c.signature.bind call') ∧
      c.signature.ReportAlike call (c.examine call).2 (c.examine call').2 ∧
      (c.examine call).2 =
        some (.valueViolation ⟨1, "options"⟩ ⟨.keyword "x", .str ""⟩ .nonEmpty) ∧
      (c.examine call').2 = some (.typeViolation ⟨1, "options"⟩ ⟨.keyword "y", .int 3⟩
        (.typeEquals .str) (.plain .str) .int) := by
  intro a options call call'
  have hdistinct : call.keywords.Nodup := by decide
  have hmoved : call.Rearranges call' :=
    ⟨rfl, (List.perm_append_singleton ("y", Value.int 3) [("x", .str ""), ("a", .int 1)]).symm⟩
  refine ⟨_, rfl, ?_, ?_, rfl, rfl⟩
  · exact (keyword_order_indifferent _ hdistinct hmoved).1
  · exact (keyword_order_indifferent _ hdistinct hmoved).2 _ rfl

end CallContract
