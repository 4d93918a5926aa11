import CallContract.Proofs.Contracts.Enforcement
import CallContract.Proofs.Contracts.Examination

/-!
# Calls under each mode

With checking off a call goes on and nothing is told of it. Under the other two modes the call is
examined, and they differ in one case only: where a check does not pass, an enforced call stops
there, and one that is only warned of goes on, with the warning behind what the examination tells.
What separates this case from a call that does not bind is the kind of the failure.

**Calls.** That a call tells certain events and then runs the body, once and on the call as it came
(`Runs`), or stops with a certain failure (`Stops`), holds for bodies with any effects. One of the
two holds of each call, and which one is what the function decides.

**Results.**
* `examine_is_check_iff`: a report is one of a check exactly if the call binds.
* `runs_iff_decide`, `stops_iff_decide`: what a function decides is what its calls do.
* `decide_of_rejected`, `decide_of_passes`, `decide_enforce_of_first`, `decide_warn_of_first`: what
  is decided, case by case.
* `decide_warn_eq_none_iff`, `decide_warn_eq_some_iff`: failures of checks are let pass, and calls
  that do not bind are not.
* `decide_eq_none_of_laxness_le`: from enforcing to warning to no checking, more calls go on.
-/
namespace CallContract

/-- Whatever a check reports is of the kind of checks. -/
theorem Check.judge_is_check {c : Check} {param : ParamRef} {arg : Argument} {failure : Failure}
    (h : c.judge param arg = some failure) : failure.is .check = true := by
  have hv (failing : Option (Nat × Value)) : (c.violation param arg failing).is .check = true :=
    Failure.Kind.isA_trans (c.kind_violation param arg failing) rfl
  rw [judge] at h
  split at h <;> cases h
  · exact hv _
  · exact hv _
  · rfl

theorem Failure.bindingRejection_is_check (rejection : Rejection) :
    (Failure.bindingRejection rejection).is .check = false := rfl

namespace Contract

theorem examine_is_check_iff {c : Contract} {call : Call} {failure : Failure}
    (h : (c.examine call).2 = some failure) :
    failure.is .check = true ↔ ∃ bound, c.signature.bind call = .ok bound := by
  cases hb : c.signature.bind call with
  | error rejection =>
    rw [examine_of_rejected hb] at h
    cases h
    simp [Failure.bindingRejection_is_check]
  | ok bound =>
    obtain ⟨before, pair, after, -, -, hj⟩ := exists_first_of_examine_eq_some hb h
    exact ⟨fun _ => ⟨bound, rfl⟩, fun _ => Check.judge_is_check hj⟩

end Contract

/-- How much a mode lets pass, the strictest first. -/
def Mode.laxness : Mode → Nat
  | .enforce => 0
  | .warn => 1
  | .off => 2

theorem Mode.eq_enforce_of_laxness_le {m : Mode} :
    m.laxness ≤ Mode.enforce.laxness → m = .enforce := by
  cases m <;> decide

namespace Guarded

/-! ## What calls do -/

/-- The call tells the events and runs the body, once and on the call as it came. -/
def Runs (g : Guarded) (c : Call) (events : List Event) : Prop :=
  ∀ (m : Type → Type) [Monad m] (α : Type) (body : Call → m α),
    g.call body c = do
      let result ← body c
      return (events, .ok result)

/-- The call tells the events and returns the failure; the body does not run. -/
def Stops (g : Guarded) (c : Call) (events : List Event) (failure : Failure) : Prop :=
  ∀ (m : Type → Type) [Monad m] (α : Type) (body : Call → m α),
    g.call body c = pure (events, .error failure)

variable {g : Guarded} {c : Call} {events : List Event} {failure : Failure}

theorem runs_of_decide (h : g.decide c = (events, none)) : g.Runs c events := by
  intro m _ α body
  rw [call, h]

theorem stops_of_decide (h : g.decide c = (events, some failure)) : g.Stops c events failure := by
  intro m _ α body
  rw [call, h]

-- A body without effects tells apart what calls do: its result is there, or the failure is.
theorem runs_iff_decide : g.Runs c events ↔ g.decide c = (events, none) := by
  refine ⟨fun h => ?_, runs_of_decide⟩
  have h := h Id Call id
  cases hd : g.decide c with
  | mk told reported =>
    cases reported with
    | none => cases (runs_of_decide hd Id Call id).symm.trans h; rfl
    | some failure => cases (stops_of_decide hd Id Call id).symm.trans h

theorem stops_iff_decide : g.Stops c events failure ↔ g.decide c = (events, some failure) := by
  refine ⟨fun h => ?_, stops_of_decide⟩
  have h := h Id Call id
  cases hd : g.decide c with
  | mk told reported =>
    cases reported with
    | none => cases (runs_of_decide hd Id Call id).symm.trans h
    | some reported => cases (stops_of_decide hd Id Call id).symm.trans h; rfl

/-! ## What is decided -/

theorem decide_of_rejected (hm : g.mode ≠ .off) {rejection : Rejection}
    (h : g.contract.signature.bind c = .error rejection) :
    g.decide c = ([.callRejected g.name rejection], some (.bindingRejection rejection)) := by
  have he := Contract.examine_of_rejected h
  rw [decide]
  cases hmode : g.mode with
  | off => exact absurd hmode hm
  | enforce => exact he
  | warn =>
    dsimp only
    rw [he]
    exact if_neg (by rw [Failure.bindingRejection_is_check]; exact Bool.false_ne_true)

/-- Where calls are looked at, none goes on that does not bind. -/
theorem exists_bound_of_decide_eq_none (hm : g.mode ≠ .off) (h : (g.decide c).2 = none) :
    ∃ bound, g.contract.signature.bind c = .ok bound := by
  cases hb : g.contract.signature.bind c with
  | error rejection =>
    rw [decide_of_rejected hm hb] at h
    cases h
  | ok bound => exact ⟨bound, rfl⟩

theorem decide_of_passes (hm : g.mode ≠ .off) {bound : List Bound}
    (h : g.contract.signature.bind c = .ok bound)
    (hp : ∀ pair ∈ g.contract.schedule c, Contract.Passes pair) :
    g.decide c = ((g.contract.schedule c).map (g.contract.checkedPair true), none) := by
  have he := Contract.examine_of_passes h hp
  rw [decide]
  cases hmode : g.mode with
  | off => exact absurd hmode hm
  | enforce => exact he
  | warn =>
    dsimp only
    rw [he]

section First

variable {bound : List Bound} {before after : List (Bound × Check)} {pair : Bound × Check}

theorem decide_enforce_of_first (hm : g.mode = .enforce)
    (h : g.contract.signature.bind c = .ok bound)
    (hs : g.contract.schedule c = before ++ pair :: after)
    (hb : ∀ q ∈ before, Contract.Passes q) (hj : g.contract.judgePair pair = some failure) :
    g.decide c = (g.contract.stoppedAt before pair failure, some failure) := by
  rw [decide_enforce hm, Contract.examine_of_first h hs hb hj]

theorem decide_warn_of_first (hm : g.mode = .warn)
    (h : g.contract.signature.bind c = .ok bound)
    (hs : g.contract.schedule c = before ++ pair :: after)
    (hb : ∀ q ∈ before, Contract.Passes q) (hj : g.contract.judgePair pair = some failure) :
    g.decide c =
      (g.contract.stoppedAt before pair failure ++ [.tolerated g.name failure], none) := by
  rw [decide, hm]
  dsimp only
  rw [Contract.examine_of_first h hs hb hj]
  exact if_pos (Check.judge_is_check hj)

end First

/-- Of a call that binds, whatever its examination, the function only warns. -/
theorem decide_warn_of_bound (hm : g.mode = .warn) {bound : List Bound}
    (h : g.contract.signature.bind c = .ok bound) : (g.decide c).2 = none := by
  rcases g.contract.examine_cases h with ⟨hp, -⟩ | ⟨before, pair, after, failure, hs, hb, hj, -⟩
  · rw [decide_of_passes (by simp [hm]) h hp]
  · rw [decide_warn_of_first hm h hs hb hj]

theorem decide_warn_eq_none_iff (hm : g.mode = .warn) :
    (g.decide c).2 = none ↔ ∃ bound, g.contract.signature.bind c = .ok bound :=
  ⟨exists_bound_of_decide_eq_none (by simp [hm]), fun ⟨_, hb⟩ => decide_warn_of_bound hm hb⟩

/-- What a call is refused with all the same is what examining it reports. -/
theorem decide_warn_eq_some_iff (hm : g.mode = .warn) :
    (g.decide c).2 = some failure ↔
      (g.contract.examine c).2 = some failure ∧
        ∃ rejection, failure = .bindingRejection rejection := by
  cases hb : g.contract.signature.bind c with
  | error rejection =>
    rw [decide_of_rejected (by simp [hm]) hb, Contract.examine_of_rejected hb]
    refine ⟨fun h => ⟨h, rejection, (Option.some.inj h).symm⟩, fun h => h.1⟩
  | ok bound =>
    rw [decide_warn_of_bound hm hb]
    refine ⟨fun h => (nomatch h), ?_⟩
    rintro ⟨he, rejection, rfl⟩
    have := (Contract.examine_is_check_iff he).2 ⟨bound, hb⟩
    cases this

/-- What goes on under a mode goes on under each laxer one. -/
theorem decide_eq_none_of_laxness_le {g' : Guarded} (hc : g.contract = g'.contract)
    (hm : g.mode.laxness ≤ g'.mode.laxness) (h : (g.decide c).2 = none) :
    (g'.decide c).2 = none := by
  cases hg' : g'.mode with
  | off => rw [decide_off hg']
  | warn =>
    have hg : g.mode ≠ .off := by
      intro hg
      rw [hg, hg'] at hm
      exact absurd hm (by decide)
    rw [decide_warn_eq_none_iff hg', ← hc]
    exact exists_bound_of_decide_eq_none hg h
  | enforce =>
    rw [hg'] at hm
    have hg := Mode.eq_enforce_of_laxness_le hm
    rw [decide_enforce hg] at h
    rw [decide_enforce hg', ← hc, h]

theorem decide_congr {g' : Guarded} (hc : g.contract = g'.contract) (hm : g.mode = g'.mode) :
    g.decide c = g'.decide c := by
  rw [decide, decide, hm, hc, name, name, hc]

end Guarded
end CallContract
