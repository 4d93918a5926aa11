/-!
# Decimals

A decimal is a whole number and a power of ten. As a fraction, the power stands in the numerator
or in the denominator, by its sign. A decimal overflows when it lies so far up that no finite
binary64 number is nearest to it: half a gap behind the largest one, or further.

**Results.**
* `numerator_lt_denominator`: a decimal with many places and few digits is less than one.
* `overflows_iff`: the test for overflow compares exactly, at any power of ten.
-/
namespace CallContract

/-- The number `coefficient * 10^exponent`. -/
structure Decimal where
  coefficient : Nat
  exponent : Int
deriving DecidableEq, Repr

namespace Decimal

def numerator (d : Decimal) : Nat := d.coefficient * Nat.pow 10 d.exponent.toNat

def denominator (d : Decimal) : Nat := Nat.pow 10 (-d.exponent).toNat

theorem ten_pow_pos (k : Nat) : 0 < Nat.pow 10 k := Nat.pow_pos (by decide)

theorem two_pow_le_ten_pow {j k : Nat} (h : j ≤ k) : Nat.pow 2 j ≤ Nat.pow 10 k :=
  calc Nat.pow 2 j ≤ Nat.pow 2 k := Nat.pow_le_pow_right (by decide) h
    _ ≤ Nat.pow 10 k := Nat.pow_le_pow_left (by decide) k

theorem denominator_pos (d : Decimal) : 0 < d.denominator := ten_pow_pos _

theorem numerator_lt_denominator {d : Decimal} (h : (d.coefficient.log2 : Int) < -d.exponent) :
    d.numerator < d.denominator := by
  have hz : d.exponent.toNat = 0 := by omega
  have hk : d.coefficient.log2 + 1 ≤ (-d.exponent).toNat := by omega
  rw [numerator, hz, Nat.pow_eq, Nat.pow_zero, Nat.mul_one, denominator]
  calc d.coefficient < Nat.pow 2 (d.coefficient.log2 + 1) := Nat.lt_log2_self
    _ ≤ Nat.pow 10 (-d.exponent).toNat := two_pow_le_ten_pow hk

/-! ## Overflow -/

/-- Numbers of this power of two and above round to infinity. -/
def infinityPower : Nat := 1024

/-- The least number to which infinity is nearest. -/
def infinityBound : Nat := Nat.pow 2 infinityPower - Nat.pow 2 970

theorem infinityBound_pos : 0 < infinityBound := by decide +kernel

theorem infinityBound_le {k : Nat} (h : infinityPower ≤ k) : infinityBound ≤ Nat.pow 10 k :=
  calc infinityBound ≤ Nat.pow 2 infinityPower := Nat.sub_le _ _
    _ ≤ Nat.pow 10 k := two_pow_le_ten_pow h

/-- Whether the decimal rounds to infinity. Powers of ten that settle this alone are not
multiplied out. -/
def overflows (d : Decimal) : Bool :=
  if infinityPower ≤ d.exponent then d.coefficient != 0
  else if (d.coefficient.log2 : Int) < -d.exponent then false
  else decide (infinityBound * d.denominator ≤ d.numerator)

theorem overflows_iff (d : Decimal) :
    d.overflows = true ↔ infinityBound * d.denominator ≤ d.numerator := by
  have hb := infinityBound_pos
  unfold overflows
  split
  next h =>
    have hd : d.denominator = 1 := by
      rw [denominator, show (-d.exponent).toNat = 0 by omega, Nat.pow_eq, Nat.pow_zero]
    rw [hd, Nat.mul_one, bne_iff_ne, numerator]
    constructor
    · intro hc
      calc infinityBound ≤ Nat.pow 10 d.exponent.toNat := infinityBound_le (by omega)
        _ ≤ d.coefficient * Nat.pow 10 d.exponent.toNat :=
          Nat.le_mul_of_pos_left _ (Nat.pos_of_ne_zero hc)
    · intro hle hc
      rw [hc, Nat.zero_mul] at hle
      omega
  next =>
    split
    next h =>
      have hlt := numerator_lt_denominator h
      have hle : d.denominator ≤ infinityBound * d.denominator := Nat.le_mul_of_pos_left _ hb
      simp only [Bool.false_eq_true, false_iff]
      omega
    next => exact decide_eq_true_iff

end Decimal
end CallContract
