import CallContract.Guarded

/-!
# Sessions

A session is the life of one guarded function whose body keeps the calls that reach it and
returns each as it came. A step calls the function, examines a call without making it, replaces
the policy, or goes on with a copy that shares the contract.
-/
namespace CallContract

structure Session where
  function : Guarded
  /-- The calls that reached the body, in order. -/
  received : List Call

namespace Session

inductive Step where
  | call (c : Call)
  /-- Examines a call; nothing is logged and the body is not reached. -/
  | examine (c : Call)
  | replacePolicy (policy : Policy)
  | copy

/-- What a step answers. -/
inductive Answer where
  | called (events : List Event) (result : Except Failure Call)
  | examined (failure : Option Failure)
  | policyReplaced
  /-- Whether the copy has an equal contract. -/
  | copied (equal : Bool)

def start (function : Guarded) : Session := ⟨function, []⟩

/-- The body: it keeps the call and returns it. -/
def body (c : Call) : StateM (List Call) Call := fun received => (c, received ++ [c])

def step (s : Session) : Step → Answer × Session
  | .call c =>
    let outcome := (s.function.call body c).run s.received
    (.called outcome.1.1 outcome.1.2, { s with received := outcome.2 })
  | .examine c => (.examined (s.function.contract.examine c).2, s)
  | .replacePolicy policy => (.policyReplaced, { s with function := s.function.withPolicy policy })
  | .copy => (.copied (s.function.contract == s.function.contract), s)

/-- The steps in order, each answer with the session behind it. -/
def run (s : Session) : List Step → List (Answer × Session)
  | [] => []
  | step :: steps =>
    let next := s.step step
    next :: next.2.run steps

end Session
end CallContract
