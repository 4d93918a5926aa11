/-!
# Types of values

The eight types that values have, the top type `object`, and the types that a parameter may
declare: one of those, or a sequence of a declared type. A `bool` may stand wherever an `int` is
declared; otherwise only `object` has subtypes.

**Results.**
* `mem_all`: `all` lists every type.
* `ofName?_name`: a type is read back from its name.
* `isSubtypeOf_refl`, `isSubtypeOf_trans`: subtyping is a preorder.
-/
namespace CallContract

inductive ValueType where
  | none | bool | int | float | str | list | tuple | dict | object
deriving DecidableEq, Repr

namespace ValueType

def all : List ValueType := [.none, .bool, .int, .float, .str, .list, .tuple, .dict, .object]

def name : ValueType → String
  | .none => "none"
  | .bool => "bool"
  | .int => "int"
  | .float => "float"
  | .str => "str"
  | .list => "list"
  | .tuple => "tuple"
  | .dict => "dict"
  | .object => "object"

/-- The type of exactly this name. -/
def ofName? (name : String) : Option ValueType := all.find? (·.name == name)

/-- Whether values of `t` are instances of `declared`. -/
def isSubtypeOf (t declared : ValueType) : Bool :=
  t == declared || declared == .object || (t == .bool && declared == .int)

theorem mem_all (t : ValueType) : t ∈ all := by cases t <;> decide

theorem ofName?_name (t : ValueType) : ofName? t.name = some t := by cases t <;> decide

theorem isSubtypeOf_refl (t : ValueType) : t.isSubtypeOf t = true := by cases t <;> rfl

theorem isSubtypeOf_trans {a b c : ValueType} :
    a.isSubtypeOf b = true → b.isSubtypeOf c = true → a.isSubtypeOf c = true := by
  cases a <;> cases b <;> cases c <;> decide

end ValueType

/-- A type as a parameter declares it. -/
inductive DeclaredType where
  | plain (t : ValueType)
  | sequenceOf (element : DeclaredType)
deriving DecidableEq, Repr

def DeclaredType.text : DeclaredType → String
  | .plain t => t.name
  | .sequenceOf element => "Sequence[" ++ element.text ++ "]"

end CallContract
