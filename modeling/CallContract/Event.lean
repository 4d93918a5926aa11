import CallContract.Console.Record
import CallContract.Failure.Printer

/-!
# Events

What happens when functions are registered and called: the constraints of a function are
compiled, a call is rejected, a check is made, an argument violates a check, and a violation is let
pass with a warning. Every event has a level and a record for the log. The record of a check names
the source of the value, which the console makes nothing of; that of a warning leaves out which
parameter is concerned.

**Left out.** While a signature is compiled, each of its parameters gives a record of its own at
the finest level, with its name, its kind and the number of its checks. The console has no text for
records of that sort and writes nothing of them, so they are no events here.

**Results.**
* `level_tolerated`: only a violation that is let pass is a warning.
-/
namespace CallContract

inductive Event where
  /-- A function was registered with so many parameters and checks. -/
  | compiled (function : String) (params checks : Nat)
  | callRejected (function : String) (rejection : Rejection)
  | checked (function : String) (param : ParamRef) (source : Source) (check : Check)
      (passed : Bool)
  /-- The check of an argument of this parameter ended in the failure. -/
  | violated (function : String) (param : ParamRef) (failure : Failure)
  /-- A failure was let pass. -/
  | tolerated (function : String) (failure : Failure)
deriving Repr

namespace Event

def level : Event → Console.Level
  | .compiled .. | .callRejected .. | .violated .. => .debug
  | .checked .. => .trace
  | .tolerated .. => .warn

/-- The part of the program that an event's record names as its target. -/
def target : Event → String
  | .tolerated .. => "argcheck::validated"
  | _ => "argcheck::executor"

def fields : Event → List (String × Console.Field)
  | .compiled function params checks =>
    [("event", .text "compile"), ("function", .shown function), ("params", .count params),
      ("checks", .count checks)]
  | .callRejected function rejection =>
    [("event", .text "bind_rejected"), ("function", .shown function),
      ("error", .shown rejection.message)]
  | .checked function param source check passed =>
    [("event", .text "check"), ("function", .shown function), ("param", .shown param.text),
      ("source", .shown source.text), ("check", .shown check.text), ("passed", .flag passed)]
  | .violated function param failure =>
    [("event", .text "violation"), ("function", .shown function),
      ("kind", .shown failure.kind.name), ("param", .shown param.text),
      ("error", .shown failure.message)]
  | .tolerated function failure =>
    [("event", .text "violation"), ("function", .shown function),
      ("kind", .shown failure.kind.name), ("error", .shown failure.message)]

def record (e : Event) : Console.Record := ⟨e.level, e.target, e.fields⟩

theorem level_tolerated {e : Event} (h : e.level = .warn) :
    ∃ function failure, e = .tolerated function failure := by
  cases e <;> simp_all [level]

end Event
end CallContract
