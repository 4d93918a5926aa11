import CallContract.Value.ValueType

/-!
# Checks

A check is one predicate over a value. Six kinds exist; three of them need nothing to be built,
the others take a type, a declared type or another check. A check's text has the form of the
call that builds it.

**Results.**
* `mem_all`: `Kind.all` lists every kind.
* `ofName?_name`: a kind is read back from its name.
* `kind_of_check?`: the check that a kind stands for is of that kind.
-/
namespace CallContract

inductive Check where
  /-- The value is an instance of the type. -/
  | typeEquals (declared : ValueType)
  /-- The value is a sequence; what its elements are is not looked at. -/
  | isSequenceShaped (declared : DeclaredType)
  | nonEmpty
  /-- Each element is greater than the one before it. -/
  | monotonicIncreasing
  /-- The value is greater than zero. -/
  | positive
  /-- The inner check passes on every element. -/
  | eachSatisfies (inner : Check)
deriving DecidableEq, Repr

namespace Check

/-! ## Kinds -/

inductive Kind where
  | typeEquals | isSequenceShaped | nonEmpty | monotonicIncreasing | positive | eachSatisfies
deriving DecidableEq, Repr

namespace Kind

def all : List Kind :=
  [.typeEquals, .isSequenceShaped, .nonEmpty, .monotonicIncreasing, .positive, .eachSatisfies]

def name : Kind → String
  | .typeEquals => "TypeEquals"
  | .isSequenceShaped => "IsSequenceShaped"
  | .nonEmpty => "NonEmpty"
  | .monotonicIncreasing => "MonotonicIncreasing"
  | .positive => "Positive"
  | .eachSatisfies => "EachSatisfies"

def ofName? (name : String) : Option Kind := all.find? (·.name == name)

/-- The check that the kind alone stands for, if it needs nothing to be built. -/
def check? : Kind → Option Check
  | .nonEmpty => some .nonEmpty
  | .monotonicIncreasing => some .monotonicIncreasing
  | .positive => some .positive
  | .typeEquals | .isSequenceShaped | .eachSatisfies => none

theorem mem_all (k : Kind) : k ∈ all := by cases k <;> decide

theorem ofName?_name (k : Kind) : ofName? k.name = some k := by cases k <;> decide

end Kind

def kind : Check → Kind
  | .typeEquals _ => .typeEquals
  | .isSequenceShaped _ => .isSequenceShaped
  | .nonEmpty => .nonEmpty
  | .monotonicIncreasing => .monotonicIncreasing
  | .positive => .positive
  | .eachSatisfies _ => .eachSatisfies

theorem kind_of_check? {k : Kind} {c : Check} (h : k.check? = some c) : c.kind = k := by
  cases k <;> cases h <;> rfl

/-! ## Categories -/

/-- What a failure of the check is reported as. -/
inductive Category where
  | type | value | each
deriving DecidableEq, Repr

def Category.name : Category → String
  | .type => "Type"
  | .value => "Value"
  | .each => "Each"

def category : Check → Category
  | .typeEquals _ | .isSequenceShaped _ => .type
  | .nonEmpty | .monotonicIncreasing | .positive => .value
  | .eachSatisfies _ => .each

/-- Whether the check may refine a constraint: all but the type checks may. -/
def isValueCheck (c : Check) : Bool := c.category != .type

/-- The type that a type check asks for. -/
def declaredType? : Check → Option DeclaredType
  | .typeEquals declared => some (.plain declared)
  | .isSequenceShaped declared => some declared
  | _ => none

/-! ## Texts -/

def text (c : Check) : String :=
  c.kind.name ++
    match c with
    | .typeEquals declared => "(type_declared=" ++ declared.name ++ ")"
    | .isSequenceShaped declared => "(type_declared=" ++ declared.text ++ ")"
    | .eachSatisfies inner => "(check_applied_to_each=" ++ inner.text ++ ")"
    | _ => "()"

/-- The short form for human readers. -/
def summary (c : Check) : String :=
  match c with
  | .typeEquals declared => c.kind.name ++ " for type " ++ declared.name
  | .isSequenceShaped declared => c.kind.name ++ " for type " ++ declared.text
  | .eachSatisfies inner => c.kind.name ++ "(" ++ inner.text ++ ")"
  | _ => c.kind.name

end Check
end CallContract
