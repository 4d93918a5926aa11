import CallContract.Check.Basic
import CallContract.Text.Listed

/-!
# Constraints

What a parameter declares about its arguments: a type, a refinement of another constraint by value
checks, a sequence of constrained elements, or a text that means nothing here. A refinement lists
checks, kinds that stand for a check, and groups of these.
-/
namespace CallContract

/-- One item of a refinement. -/
inductive Refinement where
  | check (c : Check)
  /-- Stands for the check that needs nothing else to be built. -/
  | kind (k : Check.Kind)
  | group (items : List Refinement)
deriving BEq, Repr

inductive Constraint where
  | plain (t : ValueType)
  /-- The base, and every item after it in order. -/
  | refined (base : Constraint) (items : List Refinement)
  | sequenceOf (element : Constraint)
  /-- Kept as it was written. -/
  | other (text : String)
deriving BEq, Repr

mutual

def Refinement.text : Refinement → String
  | .check c => c.text
  | .kind k => k.name
  | .group items => "[" ++ Text.listed (Refinement.texts items) ++ "]"

def Refinement.texts : List Refinement → List String
  | [] => []
  | item :: items => item.text :: Refinement.texts items

end

namespace Constraint

def text : Constraint → String
  | .plain t => t.name
  | .refined base items => "Refined[" ++ Text.listed (base.text :: Refinement.texts items) ++ "]"
  | .sequenceOf element => "Sequence[" ++ element.text ++ "]"
  | .other text => text

/-- The type that the constraint asks for, its refinements left aside. -/
def declaredType : Constraint → DeclaredType
  | .plain t => .plain t
  | .refined base _ => base.declaredType
  | .sequenceOf element => .sequenceOf element.declaredType
  | .other _ => .plain .object

end Constraint
end CallContract
