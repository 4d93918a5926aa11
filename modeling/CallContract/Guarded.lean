import CallContract.Contract
import CallContract.Policy

/-!
# Guarded functions

A guarded function is a contract together with the policy in force. For each call it decides, by
the mode of its name, whether the call is refused or goes on to the body; a call that goes on
reaches the body unchanged, and a refused one does not reach it.

**Results.**
* `decide_off`: with checking off nothing is looked at.
* `decide_enforce`: enforced calls are refused exactly for what their examination reports.
* `call_of_refused`: the body does not run on a refused call.
-/
namespace CallContract

structure Guarded where
  contract : Contract
  policy : Policy

namespace Guarded

/-- A function under the initial policy, or why it cannot be registered. -/
def register (name : String) (params : List Param) : Except Failure Guarded :=
  match Contract.ofParams name params with
  | .error e => .error e
  | .ok contract => .ok ⟨contract, .initial⟩

/-- The events of a registration, the records of single parameters left out; one that fails has
none. -/
def registrationEvents : Except Failure Guarded → List Event
  | .ok g => [g.contract.registered]
  | .error _ => []

def name (g : Guarded) : String := g.contract.name

def withPolicy (g : Guarded) (policy : Policy) : Guarded := { g with policy := policy }

/-- The mode in effect. -/
def mode (g : Guarded) : Mode := g.policy.modeFor g.name

/-- The form that lists name, mode and number of checks. -/
def repr (g : Guarded) : String :=
  "ValidatedFn \x7b name: " ++ Text.quoted g.name ++ ", mode: " ++ g.mode.title ++ ", checks: " ++
    toString g.contract.checkCount ++ " \x7d"

/-! ## Calls -/

/-- The events before a call goes on or is refused, and why it is refused if it is. -/
def decide (g : Guarded) (call : Call) : List Event × Option Failure :=
  match g.mode with
  | .off => ([], none)
  | .enforce => g.contract.examine call
  | .warn =>
    match g.contract.examine call with
    | (events, none) => (events, none)
    | (events, some failure) =>
      if failure.is .check then (events ++ [.tolerated g.name failure], none)
      else (events, some failure)

/-- The events of a call, and its result or why it is refused. -/
def call {m : Type → Type} [Monad m] {α : Type} (g : Guarded) (body : Call → m α) (c : Call) :
    m (List Event × Except Failure α) :=
  match g.decide c with
  | (events, some failure) => pure (events, .error failure)
  | (events, none) => do
    let result ← body c
    return (events, .ok result)

theorem decide_off {g : Guarded} (h : g.mode = .off) (c : Call) : g.decide c = ([], none) := by
  simp [decide, h]

theorem decide_enforce {g : Guarded} (h : g.mode = .enforce) (c : Call) :
    g.decide c = g.contract.examine c := by
  simp [decide, h]

theorem call_of_refused {m : Type → Type} [Monad m] {α : Type} {g : Guarded} {body : Call → m α}
    {c : Call} {failure : Failure} (h : (g.decide c).2 = some failure) :
    g.call body c = pure ((g.decide c).1, .error failure) := by
  rw [call]
  split
  next heq => simp_all
  next heq => simp_all

end Guarded
end CallContract
