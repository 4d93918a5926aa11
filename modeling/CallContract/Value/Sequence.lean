import CallContract.Value.Equality

/-!
# Sequences

Only lists are sequences: text and tuples offer some of the operations and are left out on
purpose. Membership, counting and search compare each item with the value looked for, in
that direction, by equality of values.

**Results.**
* `contains_eq_isSome_indexOf?`: what is contained has a first position.
-/
namespace CallContract

/-- The items of a value that is a sequence. -/
def Value.sequence? : Value → Option (List Value)
  | .list items => some items
  | _ => Option.none

namespace Sequence

def contains (items : List Value) (w : Value) : Bool := items.any (· == w)

def count (items : List Value) (w : Value) : Nat := items.countP (· == w)

/-- The first position whose item equals the value. -/
def indexOf? (items : List Value) (w : Value) : Option Nat := items.findIdx? (· == w)

theorem contains_eq_isSome_indexOf? (items : List Value) (w : Value) :
    contains items w = (indexOf? items w).isSome := by
  simp [contains, indexOf?, List.findIdx?_isSome]

end Sequence
end CallContract
