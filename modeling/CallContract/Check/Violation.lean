import CallContract.Check.Evaluation
import CallContract.Failure.Basic

/-!
# Violations

What a check reports for an argument on which it does not pass, and the building of a check that
applies another one to each element. A type check reports the declared and the received type, a
check of elements the first element that fails if it is known, every other check the argument
alone.

**Results.**
* `kind_violation`: a violation is of one of the three kinds of violation.
* `judge_eq_none`: nothing is reported exactly when the check passes.
-/
namespace CallContract.Check

/-- The violation of a check, given the first element that fails if there is one. -/
def violation (c : Check) (param : ParamRef) (arg : Argument) (failing : Option (Nat × Value)) :
    Failure :=
  match c.category, failing with
  | .type, _ =>
    .typeViolation param arg c (c.declaredType?.getD (.plain .object)) arg.value.type
  | .each, some (index, element) => .elementViolation param arg c index element
  | _, _ => .valueViolation param arg c

theorem kind_violation (c : Check) (param : ParamRef) (arg : Argument)
    (failing : Option (Nat × Value)) :
    (c.violation param arg failing).is .checkViolation = true := by
  unfold violation
  split <;> rfl

/-- What is reported when the check is made on an argument; nothing if it passes. -/
def judge (c : Check) (param : ParamRef) (arg : Argument) : Option Failure :=
  match c.evaluate arg.value with
  | .ok .pass => none
  | .ok .fail => some (c.violation param arg none)
  | .ok (.failAt index element) => some (c.violation param arg (some (index, element)))
  | .error e => some (.checkExecution param arg c e.operation.text e.value)

theorem judge_eq_none {c : Check} {param : ParamRef} {arg : Argument} :
    c.judge param arg = none ↔ c.evaluate arg.value = .ok .pass := by
  unfold judge
  split <;> simp_all

/-! ## Building a check of elements -/

/-- The check that applies a check, or the one a kind stands for, to each element. A kind that
stands for none is refused, with the place where that was tried. -/
def eachOf (location : Location) : Check ⊕ Kind → Except Failure Check
  | .inl inner => .ok (.eachSatisfies inner)
  | .inr kind =>
    match kind.check? with
    | some inner => .ok (.eachSatisfies inner)
    | none =>
      .error <| .checkConstruction .eachSatisfies location <|
        "expected a check instance or a default-constructible check kind; received kind: " ++
          kind.name

end CallContract.Check
