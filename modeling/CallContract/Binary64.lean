/-!
# Binary64 numbers by their bits

A `Binary64` is its 64-bit word: a sign bit, an 11-bit biased exponent and a 52-bit fraction.
Every finite number is a whole multiple of the unit 2^-1074, so its magnitude is the natural
number `magnitude` of such units and no rounded arithmetic takes place anywhere.

**Results.**
* `fraction_lt`: the fraction fits its width.
* `magnitude_eq_zero_iff`: only the two zero words have magnitude zero.
-/
namespace CallContract

/-- A 64-bit floating point number, given by its word. -/
structure Binary64 where
  bits : UInt64
deriving DecidableEq, Repr, Inhabited

namespace Binary64

/-! ## Fields -/

def word (x : Binary64) : Nat := x.bits.toNat

def isNegative (x : Binary64) : Bool := decide (Nat.pow 2 63 ≤ x.word)

/-- The biased exponent; 2047 marks infinities and NaNs. -/
def exponent (x : Binary64) : Nat := x.word / Nat.pow 2 52 % Nat.pow 2 11

def fraction (x : Binary64) : Nat := x.word % Nat.pow 2 52

def isFinite (x : Binary64) : Bool := x.exponent != 2047

def isNaN (x : Binary64) : Bool := x.exponent == 2047 && x.fraction != 0

/-! ## Magnitude -/

/-- The binary places of the unit in which magnitudes are counted. -/
def unitPlaces : Nat := 1074

/-- How many units make up the number one. -/
def unitsPerOne : Nat := Nat.pow 2 unitPlaces

theorem two_pow_pos (k : Nat) : 0 < Nat.pow 2 k := Nat.two_pow_pos k

theorem unitsPerOne_pos : 0 < unitsPerOne := by
  unfold unitsPerOne
  generalize unitPlaces = k
  exact two_pow_pos k

/-- The fraction with its leading bit, which subnormal numbers lack. -/
def significand (x : Binary64) : Nat :=
  if x.exponent = 0 then x.fraction else Nat.pow 2 52 + x.fraction

/-- The distance to the next larger magnitude, in units. -/
def gap (x : Binary64) : Nat := Nat.pow 2 (x.exponent - 1)

/-- The absolute value of a finite number, in units. -/
def magnitude (x : Binary64) : Nat := x.significand * x.gap

theorem fraction_lt (x : Binary64) : x.fraction < Nat.pow 2 52 := Nat.mod_lt _ (by decide)

theorem magnitude_eq_zero_iff (x : Binary64) :
    x.magnitude = 0 ↔ x.exponent = 0 ∧ x.fraction = 0 := by
  have hg : x.gap ≠ 0 := Nat.pos_iff_ne_zero.1 (two_pow_pos _)
  simp only [magnitude, Nat.mul_eq_zero, hg, or_false, significand]
  split <;> simp_all

end Binary64
end CallContract
