/-!
# Kinds of failure

The kinds form a tree, from the general failure at the root to the three violations of checks. A
failure is of its own kind and of every kind above it.

**Results.**
* `mem_all`: `all` lists every kind.
* `ofName?_name`: a kind is read back from its name.
* `ancestors_eq`: the kinds above a kind are its parent and those above that.
* `isA_trans`: being of a kind is transitive.
-/
namespace CallContract.Failure

inductive Kind where
  | general
  | invalidSignature
  | constraintCompilation
  | checkConstruction
  | bindingRejection
  | check
  | checkExecution
  | checkViolation
  | typeViolation
  | valueViolation
  | elementViolation
deriving DecidableEq, Repr

namespace Kind

def all : List Kind :=
  [.general, .invalidSignature, .constraintCompilation, .checkConstruction,
    .bindingRejection, .check, .checkExecution, .checkViolation, .typeViolation, .valueViolation,
    .elementViolation]

def name : Kind → String
  | .general => "ArgCheckError"
  | .invalidSignature => "InvalidSignature"
  | .constraintCompilation => "AnnotationCompilationError"
  | .checkConstruction => "AnnotationConstructionError"
  | .bindingRejection => "CallArgBindingRejection"
  | .check => "CallArgCheckError"
  | .checkExecution => "CallArgCheckExecutionError"
  | .checkViolation => "CallArgCheckViolation"
  | .typeViolation => "CallArgTypeCheckViolation"
  | .valueViolation => "CallArgValueCheckViolation"
  | .elementViolation => "CallArgEachCheckViolation"

/-- The kind of exactly this name. -/
def ofName? (name : String) : Option Kind := all.find? (·.name == name)

/-- The kinds above, nearest first. -/
def ancestors : Kind → List Kind
  | .general => []
  | .invalidSignature | .constraintCompilation | .checkConstruction | .bindingRejection
  | .check => [.general]
  | .checkExecution | .checkViolation => [.check, .general]
  | .typeViolation | .valueViolation | .elementViolation => [.checkViolation, .check, .general]

def parent? (k : Kind) : Option Kind := k.ancestors.head?

/-- Whether a failure of kind `k` is one of kind `ancestor` as well. -/
def isA (k ancestor : Kind) : Bool := k == ancestor || k.ancestors.contains ancestor

theorem mem_all (k : Kind) : k ∈ all := by cases k <;> decide

theorem ofName?_name (k : Kind) : ofName? k.name = some k := by cases k <;> decide

theorem ancestors_eq (k : Kind) :
    k.ancestors = (k.parent?.map fun p => p :: p.ancestors).getD [] := by
  cases k <;> rfl

theorem isA_trans {a b c : Kind} : a.isA b = true → b.isA c = true → a.isA c = true := by
  cases a <;> cases b <;> cases c <;> decide

end Kind
end CallContract.Failure
