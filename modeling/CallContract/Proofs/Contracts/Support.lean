import CallContract.Proofs.Constraints.Support
import CallContract.Proofs.Contracts.Rows
import CallContract.Samples.Constraints

/-!
# Contracts of supported constraints

The checks of a bound value are made row by row, each row up to its first check that does not pass.
Where every constraint is supported, each row comes to a verdict, so all that an examination can
report of a call that binds is a violation.

**Results.**
* `examineAll_pairs_is_checkViolation`: rows that come to a verdict report nothing but violations.
* `supported_constraints_apply`: support keeps every run and every examination from a check that
  does not apply, and nothing weaker would do.
-/
namespace CallContract

/-! ## Examination of supported contracts -/

namespace Contract

theorem judge_is_checkViolation {check : Check} {param : ParamRef} {arg : Argument}
    {failure : Failure} (happ : check.Applies arg.value)
    (h : check.judge param arg = some failure) : failure.is .checkViolation = true := by
  obtain ⟨verdict, hv⟩ := happ
  simp only [Check.judge, hv] at h
  cases verdict with
  | pass => cases h
  | fail => cases h; exact Check.kind_violation ..
  | failAt index element => cases h; exact Check.kind_violation ..

/-- A row that comes to a verdict on a bound value reports nothing but a violation. -/
theorem examineAll_row_is_checkViolation {c : Contract} {b : Bound} {row : List Check}
    {rest : List (Bound × Check)}
    (hrow : ∃ verdict, Check.runAll row b.argument.value = .ok verdict)
    (hrest : ∀ failure, (c.examineAll rest).2 = some failure →
      failure.is .checkViolation = true) {failure : Failure}
    (h : (c.examineAll (row.map (fun check => (b, check)) ++ rest)).2 = some failure) :
    failure.is .checkViolation = true := by
  induction row with
  | nil => exact hrest failure h
  | cons check row ih =>
    obtain ⟨verdict, hv⟩ := hrow
    rw [Check.runAll] at hv
    simp only [List.map_cons, List.cons_append, examineAll] at h
    split at h
    · rename_i hj
      rw [Check.judge_eq_none.1 hj] at hv
      exact ih ⟨verdict, hv⟩ h
    · rename_i reported hj
      cases h
      refine judge_is_checkViolation ?_ hj
      split at hv
      · rename_i hp
        exact ⟨_, hp⟩
      · exact ⟨verdict, hv⟩

theorem examineAll_pairs_is_checkViolation {c : Contract} {bound : List Bound}
    (h : ∀ b ∈ bound, ∃ verdict,
      Check.runAll (c.checksFor b.param) b.argument.value = .ok verdict)
    {failure : Failure} (hf : (c.examineAll (c.pairs bound)).2 = some failure) :
    failure.is .checkViolation = true := by
  induction bound generalizing failure with
  | nil => cases hf
  | cons b bound ih =>
    obtain ⟨hb, hbs⟩ := List.forall_mem_cons.1 h
    rw [pairs, List.flatMap_cons] at hf
    exact examineAll_row_is_checkViolation hb (fun _ hf => ih hbs hf) hf

theorem runAll_checksFor_isOk {c : Contract}
    (hc : ∀ p ∈ c.signature.params, ∀ a, p.constraint = some a → a.IsSupported)
    (index : Nat) (v : Value) : ∃ verdict, Check.runAll (c.checksFor index) v = .ok verdict := by
  rcases c.checksFor_cases index with ⟨hr, -⟩ | ⟨p, a, hp, ha, hr⟩
  · rw [hr]
    exact ⟨_, rfl⟩
  · exact (hc p (List.mem_of_getElem? hp) a ha).runAll_isOk hr v

theorem examine_of_supported {c : Contract}
    (hc : ∀ p ∈ c.signature.params, ∀ a, p.constraint = some a → a.IsSupported)
    {call : Call} {failure : Failure} (h : (c.examine call).2 = some failure) :
    failure.kind ≠ .checkExecution := by
  rw [examine] at h
  cases hb : c.signature.bind call with
  | error rejection =>
    rw [hb] at h
    cases h
    simp [Failure.kind]
  | ok bound =>
    rw [hb] at h
    have hv := examineAll_pairs_is_checkViolation
      (fun b _ => runAll_checksFor_isOk hc b.param b.argument.value) h
    intro hk
    rw [Failure.is, hk] at hv
    cases hv

end Contract

/-! ## Support and application -/

/-- A constraint whose checks are all supported on its shape comes to a verdict on every value, so
that no call of a function of such constraints ends in a check that does not apply. Each check that
a shape does not support spoils a refinement of it on some value of the shape. -/
theorem supported_constraints_apply :
    (∀ (a : Constraint) (cs : List Check), a.checks = .ok cs → a.IsSupported →
      ∀ v, ∃ verdict, Check.runAll cs v = .ok verdict) ∧
    (∀ (s : Constraint.Shape) (c : Check), c.isSupportedOn s = false →
      ∃ v e, s.Contains v ∧
        (Constraint.refined s.constraint [.check c]).checks = .ok (s.checks ++ [c]) ∧
        Check.runAll (s.checks ++ [c]) v = .error e) ∧
    (∀ c : Contract,
      (∀ p ∈ c.signature.params, ∀ a, p.constraint = some a → a.IsSupported) →
      ∀ call failure, (c.examine call).2 = some failure → failure.kind ≠ .checkExecution) :=
  ⟨fun _ _ h hs v => hs.runAll_isOk h v,
    fun _ _ h => Constraint.Shape.exists_run_error h,
    fun _ hc _ _ h => Contract.examine_of_supported hc h⟩

/-- A list with a text is refused, but comes to that verdict, as an element type is checked before
the sign; the length of an integer does not. -/
theorem positive_ints_apply :
    (∃ verdict, Check.runAll [.isSequenceShaped (.sequenceOf (.plain .int)),
      .eachSatisfies (.typeEquals .int), .eachSatisfies .positive] (.list [.str "x"]) =
        .ok verdict) ∧
    (∃ v e, (Constraint.Shape.plain .int).Contains v ∧
      Check.runAll [.typeEquals .int, .nonEmpty] v = .error e) ∧
    ∃ c, Contract.ofParams "f" [⟨"xs", .keywordOnly, none, some Samples.sequenceOfPositiveInts⟩]
        = .ok c ∧
      ∀ call failure, (c.examine call).2 = some failure → failure.kind ≠ .checkExecution := by
  have hsupport : Samples.sequenceOfPositiveInts.IsSupported := by
    intro s hs c hc
    cases hs
    cases List.mem_singleton.1 hc
    rfl
  obtain ⟨hrun, hsharp, hexamine⟩ := supported_constraints_apply
  refine ⟨hrun _ _ Samples.checks_sequenceOfPositiveInts hsupport _, ?_, _, rfl, ?_⟩
  · obtain ⟨v, e, hv, -, he⟩ := hsharp (.plain .int) .nonEmpty rfl
    exact ⟨v, e, hv, he⟩
  · refine hexamine _ fun p hp a ha => ?_
    cases List.mem_singleton.1 hp
    cases ha
    exact hsupport

end CallContract
