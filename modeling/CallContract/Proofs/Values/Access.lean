import CallContract.Value.Sequence
import Mathlib.Data.List.FinRange

/-!
# Ways into a value

A value is looked into by its length, by its elements one after the other, by position, and, if it
is a list, as a sequence. The four ways agree: the length is the number of the elements, what stands
at a position is the element of that number, and a sequence is the list of the elements.

**Search.** Membership, counting and search compare each item with the value looked for, the item on
the left, and so agree for every value, although equality is neither reflexive (NaN) nor symmetric
(dicts with repeated keys): what is contained has a first position and is counted at least once.

**Results.**
* `get?_of_isIndexable`, `get?_of_not_isIndexable`: access by position.
* `Sequence.count_eq_length_filter`, `Sequence.indexOf?_eq_some_iff`: counting and search in terms
  of positions.
* `Value.access_agrees`: all of it, for every value.
-/
namespace CallContract

/-! ## Positions and elements -/

namespace Value

theorem get?_of_isIndexable {v : Value} (h : v.isIndexable = true) :
    ∃ es, v.elements? = some es ∧ ∀ i, v.get? i = es[i]? := by
  cases v with
  | str s => exact ⟨_, rfl, fun i => by rw [get?, List.getElem?_map]⟩
  | list items => exact ⟨items, rfl, fun _ => rfl⟩
  | tuple items => exact ⟨items, rfl, fun _ => rfl⟩
  | _ => cases h

theorem get?_of_not_isIndexable {v : Value} (h : v.isIndexable = false) (i : Nat) :
    v.get? i = Option.none := by
  cases v with
  | str s => cases h
  | list items => cases h
  | tuple items => cases h
  | _ => rfl

theorem sequence?_eq_some_iff {v : Value} {items : List Value} :
    v.sequence? = some items ↔ v = .list items := by
  cases v <;> simp [sequence?]

end Value

/-! ## Search -/

namespace Sequence

variable {items : List Value} {w : Value}

theorem contains_iff_one_le_count : contains items w = true ↔ 1 ≤ count items w := by
  rw [contains, count, List.any_eq_true, List.one_le_countP_iff]

theorem indexOf?_eq_some_iff {i : Nat} :
    indexOf? items w = some i ↔
      (∃ x, items[i]? = some x ∧ (x == w) = true) ∧
        ∀ j < i, ∀ x, items[j]? = some x → (x == w) = false := by
  rw [indexOf?, List.findIdx?_eq_some_iff_getElem]
  refine ⟨?_, ?_⟩
  · rintro ⟨hi, hx, hbefore⟩
    refine ⟨⟨items[i], List.getElem?_eq_getElem hi, hx⟩, fun j hj x hjx => ?_⟩
    obtain ⟨hlt, rfl⟩ := List.getElem?_eq_some_iff.1 hjx
    exact Bool.eq_false_iff.2 (hbefore j hj)
  · rintro ⟨⟨x, hix, hx⟩, hbefore⟩
    obtain ⟨hi, rfl⟩ := List.getElem?_eq_some_iff.1 hix
    refine ⟨hi, hx, fun j hj => ?_⟩
    exact Bool.eq_false_iff.1 (hbefore j hj _ (List.getElem?_eq_getElem _))

/-- What is counted is the positions at which an equal item stands. -/
theorem count_eq_length_filter :
    count items w =
      ((List.range items.length).filter fun i => items[i]?.any (· == w)).length := by
  rw [count, ← List.countP_eq_length_filter]
  induction items with
  | nil => rfl
  | cons x items ih =>
    rw [List.length_cons, List.range_succ_eq_map, List.countP_cons, List.countP_cons,
      List.countP_map, ih]
    rfl

end Sequence

/-! ## Agreement -/

/-- A list of items is a view of the value: it has the value's length and elements, gives access to
the same items from the front and from the back, and searches them by equality of an item with what
is looked for. -/
structure Sequence.Views (items : List Value) (v : Value) : Prop where
  length : v.length? = some items.length
  elements : v.elements? = some items
  get (i : Nat) : items[i]? = v.get? i
  reverse (i : Nat) (h : i < items.length) : items.reverse[i]? = v.get? (items.length - 1 - i)
  contains_iff_found (w : Value) : contains items w = true ↔ (indexOf? items w).isSome = true
  contains_iff_counted (w : Value) : contains items w = true ↔ 1 ≤ count items w
  found (w : Value) (i : Nat) : indexOf? items w = some i ↔
    (∃ x, v.get? i = some x ∧ (x == w) = true) ∧
      ∀ j < i, ∀ x, v.get? j = some x → (x == w) = false
  counted (w : Value) : count items w =
    ((List.range items.length).filter fun i => (v.get? i).any (· == w)).length

namespace Value

/-- Length, elements and access by position say the same of the value. -/
structure Agrees (v : Value) : Prop where
  measured : v.length?.isSome = true ↔ v.elements?.isSome = true
  length (es : List Value) (h : v.elements? = some es) : v.length? = some es.length
  indexed (h : v.isIndexable = true) : ∃ es, v.elements? = some es ∧
    ∀ i, v.get? i = es[i]? ∧ (es.length ≤ i → v.get? i = Option.none)
  notIndexed (h : v.isIndexable = false) (i : Nat) : v.get? i = Option.none
  /-- Text has its characters as elements. -/
  characters (s : String) (h : v = .str s) :
    v.elements? = some (s.toList.map ofChar) ∧ v.length? = some s.toList.length
  /-- Of a dict the keys are elements. -/
  keys (entries : List (Value × Value)) (h : v = .dict entries) :
    v.elements? = some (entries.map (·.1)) ∧ v.length? = some entries.length

theorem agrees (v : Value) : v.Agrees where
  measured := by rw [length?_eq, Option.isSome_map]
  length es h := by rw [length?_eq, h, Option.map_some]
  indexed h := by
    obtain ⟨es, hes, hget⟩ := get?_of_isIndexable h
    refine ⟨es, hes, fun i => ⟨hget i, fun hi => ?_⟩⟩
    rw [hget, List.getElem?_eq_none hi]
  notIndexed h i := get?_of_not_isIndexable h i
  characters s h := by
    subst h
    exact ⟨rfl, by rw [length?, String.length_toList]⟩
  keys entries h := by
    subst h
    exact ⟨rfl, rfl⟩

theorem views_of_list (items : List Value) : Sequence.Views items (.list items) where
  length := rfl
  elements := rfl
  get _ := rfl
  reverse _ h := List.getElem?_reverse h
  contains_iff_found w := by rw [Sequence.contains_eq_isSome_indexOf?]
  contains_iff_counted _ := Sequence.contains_iff_one_le_count
  found _ _ := Sequence.indexOf?_eq_some_iff
  counted _ := Sequence.count_eq_length_filter

/-- Whatever the value, its length, its elements and access by position agree; it is a sequence
exactly if it is a list, and then the sequence is a view of it. -/
theorem access_agrees (v : Value) :
    v.Agrees ∧ (v.sequence?.isSome = true ↔ ∃ items, v = .list items) ∧
      ∀ items, v.sequence? = some items → Sequence.Views items v := by
  refine ⟨v.agrees, ?_, ?_⟩
  · simp only [Option.isSome_iff_exists, sequence?_eq_some_iff]
  · intro items h
    obtain rfl := sequence?_eq_some_iff.1 h
    exact views_of_list items

/-- Where a dict without repeated keys is looked for, one with a repeated key is found before it,
but not the other way round; a NaN is found nowhere. -/
theorem unsymmetric_items_found :
    let x : Value := .dict [(.int 1, .int 1), (.bool true, .float ⟨0x3FF0000000000000⟩)]
    let y : Value := .dict [(.float ⟨0x3FF0000000000000⟩, .int 1), (.str "z", .list [])]
    let nan : Value := .float ⟨0x7FF8000000000000⟩
    let items := [nan, y, x, y]
    sequence? (.list items) = some items ∧
      Sequence.indexOf? items x = some 2 ∧ Sequence.count items x = 1 ∧
      Sequence.indexOf? items y = some 1 ∧ Sequence.count items y = 3 ∧
      Sequence.contains items nan = false := by
  intro x y nan items
  have hviews : Sequence.Views items (.list items) := (access_agrees (.list items)).2.2 items rfl
  have hbefore {w : Value} {n : Nat} (h : (items.take n).all (fun z => !(z == w)) = true) :
      ∀ j < n, ∀ z, (Value.list items).get? j = some z → (z == w) = false := by
    intro j hj z hz
    have hmem : z ∈ items.take n :=
      List.mem_of_getElem? ((List.getElem?_take_of_lt hj).trans hz)
    simpa using List.all_eq_true.1 h z hmem
  refine ⟨rfl, (hviews.found x 2).2 ⟨⟨x, rfl, ?_⟩, hbefore ?_⟩, ?_,
    (hviews.found y 1).2 ⟨⟨y, rfl, ?_⟩, hbefore ?_⟩, ?_, ?_⟩
  · decide +kernel
  · decide +kernel
  · rw [hviews.counted]
    decide +kernel
  · decide +kernel
  · decide +kernel
  · rw [hviews.counted]
    decide +kernel
  · decide +kernel

end Value
end CallContract
