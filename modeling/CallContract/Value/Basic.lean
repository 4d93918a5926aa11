import CallContract.Number
import CallContract.Value.ValueType

/-!
# Values

The dynamic values that calls pass and parameters declare as defaults, and the ways into them:
their type, their length, their elements and access by position. Text has its characters as
elements, each a text of its own; a dict keeps its entries in order and has its keys as elements.

**Results.**
* `length?_eq`: a value has a length exactly when it has elements, and it is their number.
* `isInstance_object`: every value is an object.
-/
namespace CallContract

inductive Value where
  | none
  | bool (b : Bool)
  | int (n : Int64)
  | float (x : Binary64)
  | str (s : String)
  | list (items : List Value)
  | tuple (items : List Value)
  /-- Keys and values in the order given; keys may repeat. -/
  | dict (entries : List (Value × Value))
deriving Repr, Inhabited

namespace Value

def type : Value → ValueType
  | .none => .none
  | .bool _ => .bool
  | .int _ => .int
  | .float _ => .float
  | .str _ => .str
  | .list _ => .list
  | .tuple _ => .tuple
  | .dict _ => .dict

/-- Whether the value is an instance of the type, subtypes included. -/
def isInstance (v : Value) (declared : ValueType) : Bool := v.type.isSubtypeOf declared

def ofChar (c : Char) : Value := .str (String.singleton c)

/-- The whole number that a value stands for; truth values count as 0 and 1. -/
def toInt64? : Value → Option Int64
  | .int n => some n
  | .bool b => some (if b then 1 else 0)
  | _ => Option.none

/-- The point on the number line that a value stands for. -/
def number? : Value → Option Number
  | .bool b => some (.ofInt (if b then 1 else 0))
  | .int n => some (.ofInt n.toInt)
  | .float x => some (.ofBinary64 x)
  | _ => Option.none

/-! ## Elements -/

def length? : Value → Option Nat
  | .str s => some s.length
  | .list items | .tuple items => some items.length
  | .dict entries => some entries.length
  | _ => Option.none

def elements? : Value → Option (List Value)
  | .str s => some (s.toList.map ofChar)
  | .list items | .tuple items => some items
  | .dict entries => some (entries.map (·.1))
  | _ => Option.none

def isIndexable : Value → Bool
  | .str _ | .list _ | .tuple _ => true
  | _ => false

/-- The element at a position, for a value with access by position. -/
def get? : Value → Nat → Option Value
  | .str s, i => s.toList[i]?.map ofChar
  | .list items, i | .tuple items, i => items[i]?
  | _, _ => Option.none

theorem length?_eq (v : Value) : v.length? = v.elements?.map List.length := by
  cases v <;> simp [length?, elements?, String.length_toList]

theorem isInstance_object (v : Value) : v.isInstance .object = true := by
  simp [isInstance, ValueType.isSubtypeOf]

end Value
end CallContract
