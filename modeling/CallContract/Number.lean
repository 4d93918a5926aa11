import CallContract.Binary64

/-!
# Exact numbers

Integers and binary64 numbers share one line: a finite number is a whole count of binary64 units,
so an integer `n` is `n * unitsPerOne` of them and comparison is comparison of integers. Nothing
is rounded, at any size.

**Results.**
* `compare?_eq_none_iff`: only a NaN leaves a comparison undecided.
* `compare?_ofInt`: integers compare as integers.
-/
namespace CallContract

/-- A point of the extended number line, or no number at all. -/
inductive Number where
  | nan
  | negInfinity
  /-- A whole count of binary64 units. -/
  | units (count : Int)
  | posInfinity
deriving DecidableEq, Repr

namespace Number

def ofInt (n : Int) : Number := .units (n * Binary64.unitsPerOne)

def ofBinary64 (x : Binary64) : Number :=
  if x.isNaN then .nan
  else if x.isFinite then .units (if x.isNegative then -(x.magnitude : Int) else x.magnitude)
  else if x.isNegative then .negInfinity
  else .posInfinity

/-- How two numbers lie to each other; a NaN lies nowhere. -/
def compare? : Number → Number → Option Ordering
  | .nan, _ => none
  | _, .nan => none
  | .units a, .units b => some (compare a b)
  | .negInfinity, .negInfinity => some .eq
  | .negInfinity, _ => some .lt
  | _, .negInfinity => some .gt
  | .posInfinity, .posInfinity => some .eq
  | .posInfinity, _ => some .gt
  | _, .posInfinity => some .lt

theorem compare?_eq_none_iff (a b : Number) : compare? a b = none ↔ a = .nan ∨ b = .nan := by
  cases a <;> cases b <;> simp [compare?]

theorem compare?_ofInt (m n : Int) : compare? (ofInt m) (ofInt n) = some (compare m n) := by
  have h : (0 : Int) < Binary64.unitsPerOne := Int.natCast_pos.2 Binary64.unitsPerOne_pos
  simp only [ofInt, compare?, Option.some.injEq]
  rw [Int.compare_eq_ite_le, Int.compare_eq_ite_le]
  simp only [Int.mul_le_mul_right h]

end Number
end CallContract
