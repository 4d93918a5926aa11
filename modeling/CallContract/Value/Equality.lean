import CallContract.Value.Basic

/-!
# Equality of values

Numbers are equal by exact numeric value, whatever their types; texts by their characters; lists
and tuples element by element with their own kind. Two dicts are equal when they have equally many
entries and each entry of the left one is found in the right one, wherever it stands. A NaN
equals nothing, itself included.

**Results.**
* `eq_list`, `eq_tuple`, `eq_dict`: what equality of compound values amounts to.
-/
namespace CallContract
namespace Value

mutual

def eq : Value → Value → Bool
  | .none, .none => true
  | .str s, .str t => s == t
  | .list items, .list others => eqItems items others
  | .tuple items, .tuple others => eqItems items others
  | .dict entries, .dict others =>
    entries.length == others.length && eqEntries entries others
  | v, w =>
    match v.number?, w.number? with
    | some m, some n => m.compare? n == some .eq
    | _, _ => false

def eqItems : List Value → List Value → Bool
  | [], [] => true
  | v :: items, w :: others => eq v w && eqItems items others
  | _, _ => false

/-- Whether every entry on the left is found on the right. -/
def eqEntries : List (Value × Value) → List (Value × Value) → Bool
  | [], _ => true
  | (key, value) :: entries, others =>
    others.any (fun other => eq key other.1 && eq value other.2) && eqEntries entries others

end

instance : BEq Value := ⟨eq⟩

theorem eq_list (items others : List Value) :
    (Value.list items == .list others) = eqItems items others := rfl

theorem eq_tuple (items others : List Value) :
    (Value.tuple items == .tuple others) = eqItems items others := rfl

theorem eq_dict (entries others : List (Value × Value)) :
    (Value.dict entries == .dict others) =
      (entries.length == others.length && eqEntries entries others) := rfl

end Value
end CallContract
