import CallContract.Binding
import CallContract.Failure.Kind

/-!
# Failures

Everything that registration and checked calls may report: a malformed signature, a constraint
that does not compile, a check that cannot be built, a call that cannot be bound, a check that
does not apply to an argument, and the three violations of checks. Each failure knows its kind
and, where there are any, the parameter, argument and check it is about.

**Results.**
* `param?_isSome_of_arg?`: a failure about an argument is about a parameter and a check, too.
-/
namespace CallContract

/-- A place in a source file. -/
structure Location where
  file : String
  line : Nat
  column : Nat
deriving DecidableEq, Repr

inductive Failure where
  /-- Anything that no other case describes. -/
  | general (text : String)
  | invalidSignature (defect : Signature.Defect)
  | constraintCompilation (param : ParamRef) (constraint problem : String)
  | checkConstruction (kind : Check.Kind) (location : Location) (problem : String)
  | bindingRejection (rejection : Rejection)
  /-- The check needs an operation that this value lacks. -/
  | checkExecution (param : ParamRef) (arg : Argument) (check : Check) (operation : String)
      (value : Value)
  | typeViolation (param : ParamRef) (arg : Argument) (check : Check) (declared : DeclaredType)
      (received : ValueType)
  | valueViolation (param : ParamRef) (arg : Argument) (check : Check)
  | elementViolation (param : ParamRef) (arg : Argument) (check : Check) (index : Nat)
      (element : Value)
deriving Repr

namespace Failure

/-! ## What a failure is about -/

def kind : Failure → Kind
  | .general _ => .general
  | .invalidSignature _ => .invalidSignature
  | .constraintCompilation .. => .constraintCompilation
  | .checkConstruction .. => .checkConstruction
  | .bindingRejection _ => .bindingRejection
  | .checkExecution .. => .checkExecution
  | .typeViolation .. => .typeViolation
  | .valueViolation .. => .valueViolation
  | .elementViolation .. => .elementViolation

/-- Whether the failure is of this kind or a more specific one. -/
def is (e : Failure) (k : Kind) : Bool := e.kind.isA k

def param? : Failure → Option ParamRef
  | .constraintCompilation param _ _
  | .checkExecution param _ _ _ _
  | .typeViolation param _ _ _ _
  | .valueViolation param _ _
  | .elementViolation param _ _ _ _ => some param
  | _ => none

def arg? : Failure → Option Argument
  | .checkExecution _ arg _ _ _
  | .typeViolation _ arg _ _ _
  | .valueViolation _ arg _
  | .elementViolation _ arg _ _ _ => some arg
  | _ => none

def check? : Failure → Option Check
  | .checkExecution _ _ check _ _
  | .typeViolation _ _ check _ _
  | .valueViolation _ _ check
  | .elementViolation _ _ check _ _ => some check
  | _ => none

theorem param?_isSome_of_arg? {e : Failure} (h : e.arg?.isSome = true) :
    e.param?.isSome = true ∧ e.check?.isSome = true := by
  cases e <;> simp_all [arg?, param?, check?]

/-- Failures are equal field by field, values by equality of values. -/
def eq : Failure → Failure → Bool
  | .general text, .general text' => text == text'
  | .invalidSignature defect, .invalidSignature defect' => defect == defect'
  | .constraintCompilation param constraint problem,
    .constraintCompilation param' constraint' problem' =>
    param == param' && constraint == constraint' && problem == problem'
  | .checkConstruction kind location problem,
    .checkConstruction kind' location' problem' =>
    kind == kind' && location == location' && problem == problem'
  | .bindingRejection rejection, .bindingRejection rejection' => rejection == rejection'
  | .checkExecution param arg check operation value,
    .checkExecution param' arg' check' operation' value' =>
    param == param' && arg == arg' && check == check' && operation == operation' &&
      value == value'
  | .typeViolation param arg check declared received,
    .typeViolation param' arg' check' declared' received' =>
    param == param' && arg == arg' && check == check' && declared == declared' &&
      received == received'
  | .valueViolation param arg check, .valueViolation param' arg' check' =>
    param == param' && arg == arg' && check == check'
  | .elementViolation param arg check index element,
    .elementViolation param' arg' check' index' element' =>
    param == param' && arg == arg' && check == check' && index == index' && element == element'
  | _, _ => false

instance : BEq Failure := ⟨eq⟩

end Failure
end CallContract
