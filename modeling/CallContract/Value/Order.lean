import CallContract.Value.Equality

/-!
# Order of values

Numbers are ordered by exact numeric value, texts by code points, lists and tuples with their own
kind by the first pair of elements that is not equal and else by length. Everything else is
unorderable, and a NaN leaves a comparison of numbers undecided.

**Results.**
* `gt?_eq_none_iff`: only unorderable values give no answer to `>`.
-/
namespace CallContract
namespace Value

/-- What comparing two values tells. -/
inductive Relation where
  | decided (o : Ordering)
  /-- The values are numbers and one of them is a NaN. -/
  | undecided
  | unorderable
deriving DecidableEq, Repr

mutual

def compare : Value → Value → Relation
  | .str s, .str t => .decided (Ord.compare s t)
  | .list items, .list others => compareItems items others
  | .tuple items, .tuple others => compareItems items others
  | v, w =>
    match v.number?, w.number? with
    | some m, some n =>
      match m.compare? n with
      | some o => .decided o
      | Option.none => .undecided
    | _, _ => .unorderable

/-- Equal elements are passed over; the first unequal pair decides, and else the lengths do. -/
def compareItems : List Value → List Value → Relation
  | v :: items, w :: others => if v == w then compareItems items others else compare v w
  | items, others => .decided (Ord.compare items.length others.length)

end

/-- Whether the first value is greater than the second; no answer if they are unorderable. -/
def gt? (v w : Value) : Option Bool :=
  match compare v w with
  | .decided o => some (o == .gt)
  | .undecided => some false
  | .unorderable => Option.none

theorem gt?_eq_none_iff (v w : Value) : v.gt? w = Option.none ↔ compare v w = .unorderable := by
  unfold gt?
  split <;> simp_all

end Value
end CallContract
