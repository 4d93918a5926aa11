import CallContract.Proofs.Contracts.Modes
import CallContract.Session

/-!
# Runs of sessions

Of all that happens in a session, only the policies given have an effect on what follows: a call is
answered by the contract of the registration under the mode that the latest policy has for its
function (`Obeys`). Calls made before, refused or forwarded, calls examined and copies taken leave
no trace but the calls that the body has received.

**Runs.** `after` is the session behind some steps. A run holds, step by step, the answer and the
session behind it, so what holds of one step after any others holds of every step of every run
(`run_getElem?`).

**Results.**
* `function_step`, `received_step_eq`: what one step changes.
* `after_keeps`: the function and the calls received, by induction on the steps.
* `obeys_of_mode`: what each mode makes of a call.
* `session_law`: the whole of it, for every registered function and all steps.
-/
namespace CallContract

theorem Contract.name_ofParams {name : String} {params : List Param} {c : Contract}
    (h : ofParams name params = .ok c) : c.name = name := by
  rw [ofParams] at h
  split at h
  · cases h
  · split at h
    · cases h
    · cases h; rfl

theorem Guarded.register_keeps {name : String} {params : List Param} {g : Guarded}
    (h : register name params = .ok g) : g.name = name ∧ g.policy = .initial := by
  rw [register] at h
  split at h
  · cases h
  · rename_i contract hc
    cases h
    exact ⟨Contract.name_ofParams hc, rfl⟩

namespace Session

/-! ## Steps in a row -/

/-- The session behind the steps. -/
def after (s : Session) (steps : List Step) : Session :=
  steps.foldl (fun s step => (s.step step).2) s

theorem after_concat (s : Session) (steps : List Step) (step : Step) :
    s.after (steps ++ [step]) = ((s.after steps).step step).2 := by
  rw [after, List.foldl_append]
  rfl

theorem run_append (s : Session) (steps more : List Step) :
    s.run (steps ++ more) = s.run steps ++ (s.after steps).run more := by
  induction steps generalizing s with
  | nil => rfl
  | cons step steps ih => rw [List.cons_append, run, run, ih]; rfl

/-- Each step of a run is taken from the session behind those before it. -/
theorem run_getElem? (s : Session) (steps : List Step) (k : Nat) :
    (s.run steps)[k]? = steps[k]?.map (s.after (steps.take k)).step := by
  induction steps generalizing s k with
  | nil => rfl
  | cons step steps ih =>
    cases k with
    | zero => rfl
    | succ k => exact ih (s.step step).2 k

/-! ## What steps leave behind -/

/-- The policy that a step gives. -/
def Step.policy? : Step → Option Policy
  | .replacePolicy policy => some policy
  | _ => none

/-- The last policy given in the steps, or the initial one. -/
def latestPolicy (steps : List Step) : Policy :=
  (steps.filterMap Step.policy?).getLast?.getD .initial

/-- The call that the answer says the body has received. -/
def Answer.forwarded? : Answer → Option Call
  | .called _ (.ok c) => some c
  | _ => none

theorem latestPolicy_concat (steps : List Step) (step : Step) :
    latestPolicy (steps ++ [step]) = step.policy?.getD (latestPolicy steps) := by
  rw [latestPolicy, List.filterMap_append]
  cases h : step.policy? with
  | none => simp [h, latestPolicy]
  | some policy => simp [h]

theorem function_step (s : Session) (step : Step) :
    (s.step step).2.function = s.function.withPolicy (step.policy?.getD s.function.policy) := by
  cases step <;> rfl

theorem step_call_of_none {s : Session} {c : Call} {events : List Event}
    (h : s.function.decide c = (events, none)) :
    s.step (.call c) = (.called events (.ok c), ⟨s.function, s.received ++ [c]⟩) := by
  simp only [step, Guarded.call, h]
  rfl

theorem step_call_of_some {s : Session} {c : Call} {events : List Event} {failure : Failure}
    (h : s.function.decide c = (events, some failure)) :
    s.step (.call c) = (.called events (.error failure), s) := by
  simp only [step, Guarded.call, h]
  rfl

/-- A step adds to the calls received the one it says was forwarded. -/
theorem received_step_eq (s : Session) (step : Step) :
    (s.step step).2.received = s.received ++ (s.step step).1.forwarded?.toList := by
  cases step with
  | call c =>
    cases h : s.function.decide c with
    | mk events reported =>
      cases reported with
      | none => rw [step_call_of_none h]; rfl
      | some failure => rw [step_call_of_some h]; simp [Answer.forwarded?]
  | examine c => simp [Session.step, Answer.forwarded?]
  | replacePolicy policy => simp [Session.step, Answer.forwarded?]
  | copy => simp [Session.step, Answer.forwarded?]

/-- The steps change the policy of a registered function alone, and the body has received the calls
forwarded, in order. -/
theorem after_keeps (g : Guarded) (hg : g.policy = .initial) (steps : List Step) :
    ((start g).after steps).function = g.withPolicy (latestPolicy steps) ∧
      ((start g).after steps).received = ((start g).run steps).filterMap (·.1.forwarded?) := by
  induction steps using List.reverseRecOn with
  | nil => exact ⟨by rw [latestPolicy, Guarded.withPolicy]; exact hg ▸ rfl, rfl⟩
  | append_singleton steps step ih =>
    obtain ⟨hf, hr⟩ := ih
    refine ⟨?_, ?_⟩
    · rw [after_concat, function_step, hf, latestPolicy_concat]
      rfl
    · rw [after_concat, received_step_eq, hr, run_append, List.filterMap_append]
      rfl

/-! ## Calls after any steps -/

/-- Whatever the body, it runs once on the call as it came; the body of the session has the call
behind those received before. -/
def Forwards (s : Session) (c : Call) : Prop :=
  ∃ events, s.function.Runs c events ∧
    s.step (.call c) = (.called events (.ok c), ⟨s.function, s.received ++ [c]⟩)

/-- Whatever the body, it does not run, and the call is answered with the failure. -/
def Refuses (s : Session) (c : Call) (failure : Failure) : Prop :=
  ∃ events, s.function.Stops c events failure ∧
    s.step (.call c) = (.called events (.error failure), s)

theorem forwards_iff_decide (s : Session) (c : Call) :
    s.Forwards c ↔ (s.function.decide c).2 = none := by
  refine ⟨?_, fun h => ?_⟩
  · rintro ⟨events, hr, -⟩
    rw [Guarded.runs_iff_decide.1 hr]
  · have hd : s.function.decide c = ((s.function.decide c).1, none) := Prod.ext rfl h
    exact ⟨_, Guarded.runs_of_decide hd, step_call_of_none hd⟩

theorem refuses_iff_decide (s : Session) (c : Call) (failure : Failure) :
    s.Refuses c failure ↔ (s.function.decide c).2 = some failure := by
  refine ⟨?_, fun h => ?_⟩
  · rintro ⟨events, hr, -⟩
    rw [Guarded.stops_iff_decide.1 hr]
  · have hd : s.function.decide c = ((s.function.decide c).1, some failure) := Prod.ext rfl h
    exact ⟨_, Guarded.stops_of_decide hd, step_call_of_some hd⟩

/-- What the mode in force makes of a call, given the examination of the call. -/
structure Obeys (s : Session) (contract : Contract) (mode : Mode) (c : Call) : Prop where
  answered : s.Forwards c ∨ ∃ failure, s.Refuses c failure
  off : mode = .off → s.Forwards c
  enforced : mode = .enforce → (s.Forwards c ↔ (contract.examine c).2 = none)
  reported : mode = .enforce →
    ∀ failure, s.Refuses c failure ↔ (contract.examine c).2 = some failure
  warned : mode = .warn → (s.Forwards c ↔ ∃ bound, contract.signature.bind c = .ok bound)
  /-- A call refused all the same is refused with what an enforced call would report. -/
  rejected : mode = .warn → ∀ failure, s.Refuses c failure ↔
    (contract.examine c).2 = some failure ∧ ∃ rejection, failure = .bindingRejection rejection
  spared : mode = .warn → ∀ failure, s.Refuses c failure → failure.is .check = false

theorem obeys_of_mode {s : Session} {mode : Mode} (hm : s.function.mode = mode) (c : Call) :
    s.Obeys s.function.contract mode c where
  answered := by
    simp only [forwards_iff_decide, refuses_iff_decide]
    cases (s.function.decide c).2 with
    | none => exact .inl rfl
    | some failure => exact .inr ⟨failure, rfl⟩
  off h := (s.forwards_iff_decide c).2 (by rw [Guarded.decide_off (hm.trans h)])
  enforced h := by rw [forwards_iff_decide, Guarded.decide_enforce (hm.trans h)]
  reported h failure := by rw [refuses_iff_decide, Guarded.decide_enforce (hm.trans h)]
  warned h := by rw [forwards_iff_decide, Guarded.decide_warn_eq_none_iff (hm.trans h)]
  rejected h failure := by rw [refuses_iff_decide, Guarded.decide_warn_eq_some_iff (hm.trans h)]
  spared h failure hr := by
    rw [refuses_iff_decide, Guarded.decide_warn_eq_some_iff (hm.trans h)] at hr
    obtain ⟨-, rejection, rfl⟩ := hr
    exact Failure.bindingRejection_is_check rejection

/-! ## The law of sessions -/

/-- The mode in force for a function of this name behind the steps. -/
def modeAfter (name : String) (steps : List Step) : Mode := (latestPolicy steps).modeFor name

theorem answer_congr {s s' : Session} {c : Call} (h : s.function.decide c = s'.function.decide c) :
    (s.step (.call c)).1 = (s'.step (.call c)).1 := by
  cases hd : s.function.decide c with
  | mk events reported =>
    have hd' := h.symm.trans hd
    cases reported with
    | none => rw [step_call_of_none hd, step_call_of_none hd']
    | some failure => rw [step_call_of_some hd, step_call_of_some hd']

/-- Behind any steps a registered function has its contract and the latest policy, its body has
received the calls forwarded, and each call is answered as the mode in force has it. Where the same
mode is in force behind other steps, the call is answered alike there, and where a laxer one is, a
call forwarded here is forwarded, too. -/
theorem session_law {name : String} {params : List Param} {g : Guarded}
    (h : Guarded.register name params = .ok g) (steps : List Step) :
    ((start g).after steps).function = g.withPolicy (latestPolicy steps) ∧
    ((start g).after steps).received = ((start g).run steps).filterMap (·.1.forwarded?) ∧
    (∀ k, ((start g).run steps)[k]? = steps[k]?.map ((start g).after (steps.take k)).step) ∧
    ∀ c,
      ((start g).after steps).step (.examine c) =
        (.examined (g.contract.examine c).2, (start g).after steps) ∧
      ((start g).after steps).Obeys g.contract (modeAfter name steps) c ∧
      ∀ others,
        (modeAfter name steps = modeAfter name others →
          (((start g).after steps).step (.call c)).1 =
            (((start g).after others).step (.call c)).1) ∧
        ((modeAfter name steps).laxness ≤ (modeAfter name others).laxness →
          ((start g).after steps).Forwards c → ((start g).after others).Forwards c) := by
  obtain ⟨hname, hpolicy⟩ := Guarded.register_keeps h
  have hcontract (l : List Step) : ((start g).after l).function.contract = g.contract := by
    rw [(after_keeps g hpolicy l).1]
    rfl
  have hmode (l : List Step) : ((start g).after l).function.mode = modeAfter name l := by
    rw [(after_keeps g hpolicy l).1, modeAfter, ← hname]
    rfl
  obtain ⟨hf, hr⟩ := after_keeps g hpolicy steps
  refine ⟨hf, hr, run_getElem? _ steps, fun c => ⟨?_, ?_, fun others => ⟨fun hm => ?_, ?_⟩⟩⟩
  · rw [step, hcontract]
  · have := obeys_of_mode (hmode steps) c
    rwa [hcontract] at this
  · refine answer_congr (Guarded.decide_congr ?_ ?_)
    · rw [hcontract, hcontract]
    · rw [hmode, hmode, hm]
  · intro hm hc
    rw [forwards_iff_decide] at hc ⊢
    refine Guarded.decide_eq_none_of_laxness_le ?_ ?_ hc
    · rw [hcontract, hcontract]
    · rwa [hmode, hmode]

/-- An empty list is refused, until there is only a warning for this one function. -/
theorem empty_list_refused_then_warned :
    ∃ g, Guarded.register "f"
        [⟨"xs", .positionalOrKeyword, none, some (.refined (.plain .list) [.kind .nonEmpty])⟩]
        = .ok g ∧
      let c : Call := ⟨[.list []], []⟩
      (start g).Refuses c (.valueViolation ⟨0, "xs"⟩ ⟨.positional 0, .list []⟩ .nonEmpty) ∧
      ((start g).after [.call c, .copy, .replacePolicy ⟨.enforce, [("f", some .warn)]⟩]).Forwards
        c := by
  obtain ⟨g, hg⟩ : ∃ g, Guarded.register "f"
      [⟨"xs", .positionalOrKeyword, none, some (.refined (.plain .list) [.kind .nonEmpty])⟩]
      = .ok g := ⟨_, rfl⟩
  refine ⟨g, hg, ?_⟩
  intro c
  have hlaw (steps : List Step) := ((session_law hg steps).2.2.2 c).2.1
  have hbind : g.contract.signature.bind c = .ok [⟨0, .positional 0, .list []⟩] := by cases hg; rfl
  refine ⟨((hlaw []).reported rfl _).2 ?_, ((hlaw _).warned rfl).2 ⟨_, hbind⟩⟩
  cases hg; rfl

end Session
end CallContract
