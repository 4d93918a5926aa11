import CallContract.Constraint.Basic
import CallContract.Param

/-!
# Signatures

A signature is a list of parameters that a function could declare: names are there and distinct,
kinds come in order, each variadic kind at most once and without a default, and after a
positional parameter with a default all later positional ones have one. A list is read from left
to right; the first parameter that breaks a rule given those before it is the defect reported,
and of several broken rules the first one.

**Results.**
* `firstDefect_append`: a defect depends on nothing behind it.
* `ofParams_params`: what is accepted is kept as it is.
-/
namespace CallContract

/-- A parameter as a function declares it. -/
structure Param where
  name : String
  kind : ParamKind
  default : Option Value
  constraint : Option Constraint
deriving BEq, Repr

def Param.isDefaulted (p : Param) : Bool := p.default.isSome

namespace Signature

/-- Why no function could declare a parameter list. -/
inductive Defect where
  | emptyName (index : Nat)
  | duplicateName (name : String)
  | wrongOrder (name : String) (kind previous : ParamKind)
  | duplicateVariadic (name : String) (kind : ParamKind)
  | variadicDefault (name : String) (kind : ParamKind)
  | requiredAfterDefault (name : String)
deriving DecidableEq, Repr

namespace Defect

def name : Defect → String
  | .emptyName _ => "EmptyName"
  | .duplicateName _ => "DuplicateName"
  | .wrongOrder .. => "WrongOrder"
  | .duplicateVariadic .. => "DuplicateVariadic"
  | .variadicDefault .. => "VariadicDefault"
  | .requiredAfterDefault _ => "RequiredAfterDefault"

def message : Defect → String
  | .emptyName index =>
    "parameter name must not be empty (position " ++ toString index ++ ")"
  | .duplicateName name => "duplicate parameter name: '" ++ name ++ "'"
  | .wrongOrder name kind previous =>
    "wrong parameter order: " ++ kind.description ++ " parameter '" ++ name ++ "' follows " ++
      previous.description ++ " parameter"
  | .duplicateVariadic name kind =>
    "more than one " ++ kind.description ++ " parameter: '" ++ name ++ "'"
  | .variadicDefault name kind =>
    kind.description ++ " parameter '" ++ name ++ "' cannot have a default value"
  | .requiredAfterDefault name =>
    "parameter without a default follows parameter with a default: '" ++ name ++ "'"

end Defect

/-! ## Defects -/

/-- What is wrong with a parameter that follows one of the kind `previous`: its kind belongs before
that, or repeats a variadic kind. -/
def orderDefect (previous : ParamKind) (p : Param) : Option Defect :=
  if p.kind.rank < previous.rank then some (.wrongOrder p.name p.kind previous)
  else if p.kind = previous ∧ p.kind.isVariadic then some (.duplicateVariadic p.name p.kind)
  else none

/-- What is wrong with a parameter, given those before it. -/
def defectAfter (before : List Param) (p : Param) : Option Defect :=
  if p.name = "" then some (.emptyName before.length)
  else if before.any (·.name == p.name) then some (.duplicateName p.name)
  else
    match before.getLast?.bind (orderDefect ·.kind p) with
    | some defect => some defect
    | none =>
      if p.kind.isVariadic && p.isDefaulted then some (.variadicDefault p.name p.kind)
      else if p.kind.isPositional && !p.isDefaulted &&
          before.any (fun q => q.kind.isPositional && q.isDefaulted) then
        some (.requiredAfterDefault p.name)
      else none

/-- The first defect among the parameters that follow `before`. -/
def firstDefect (before : List Param) : List Param → Option Defect
  | [] => none
  | p :: rest =>
    match defectAfter before p with
    | some defect => some defect
    | none => firstDefect (before ++ [p]) rest

theorem firstDefect_append (before ps qs : List Param) :
    firstDefect before (ps ++ qs) =
      (firstDefect before ps).or (firstDefect (before ++ ps) qs) := by
  induction ps generalizing before with
  | nil => simp [firstDefect]
  | cons p ps ih =>
    simp only [List.cons_append, firstDefect]
    split
    · simp
    · simp [ih]

end Signature

/-! ## Signatures -/

structure Signature where
  params : List Param
  sound : Signature.firstDefect [] params = none

namespace Signature

/-- The signature of a parameter list, or the list's first defect. -/
def ofParams (ps : List Param) : Except Defect Signature :=
  match h : firstDefect [] ps with
  | none => .ok ⟨ps, h⟩
  | some defect => .error defect

/-- The position of the parameter of this name. -/
def position? (s : Signature) (name : String) : Option Nat := s.params.findIdx? (·.name == name)

instance : BEq Signature := ⟨fun s t => s.params == t.params⟩

theorem ofParams_params {ps : List Param} {s : Signature} (h : ofParams ps = .ok s) :
    s.params = ps := by
  rw [ofParams] at h
  split at h
  · cases h; rfl
  · cases h

end Signature
end CallContract
