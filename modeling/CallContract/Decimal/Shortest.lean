import CallContract.Binary64
import CallContract.Decimal.Basic

/-!
# The shortest decimal that reads back

The reals that round to a binary64 number form an interval around it, its ends included exactly
when the significand is even. `Decimal.shortest` looks at the decimals of 1, 2, … 17 digits
next to the number and takes the first length at which one of them lies in that interval;
of two it takes the nearer, and the upper one when both are equally near.

Everything is counted in quarters of a binary64 unit, where all interval ends are whole.

**Results.**
* `contains_expansion`: the number's own expansion lies in its interval.
* `contains_shortest`: so does the decimal chosen, hence it reads back.
-/
namespace CallContract

namespace Decimal

open Binary64 (unitPlaces unitsPerOne)

/-! ## Rounding intervals -/

/-- The reals that round to one number, in quarters of a unit. -/
structure Interval where
  low : Nat
  high : Nat
  /-- Whether the two ends belong to it. -/
  closed : Bool
deriving DecidableEq, Repr

def Interval.contains (i : Interval) (d : Decimal) : Bool :=
  let point := 4 * unitsPerOne * d.numerator
  let low := i.low * d.denominator
  let high := i.high * d.denominator
  if i.closed then decide (low ≤ point ∧ point ≤ high) else decide (low < point ∧ point < high)

/-- Half a gap on both sides; below a power of two the gap is half as wide. -/
def interval (x : Binary64) : Interval where
  low := 4 * x.magnitude - (if x.fraction = 0 ∧ 1 < x.exponent then x.gap else 2 * x.gap)
  high := 4 * x.magnitude + 2 * x.gap
  closed := x.significand % 2 == 0

/-! ## Candidates on a decimal grid -/

/-- The multiple of 10^e at or below the number. -/
def below (x : Binary64) (e : Int) : Nat :=
  x.magnitude * Nat.pow 10 (-e).toNat / (unitsPerOne * Nat.pow 10 e.toNat)

/-- Whether the number lies at or above the middle of its cell on the grid of step 10^e. -/
def pastMiddle (x : Binary64) (e : Int) : Bool :=
  decide ((2 * below x e + 1) * (unitsPerOne * Nat.pow 10 e.toNat) ≤
    2 * (x.magnitude * Nat.pow 10 (-e).toNat))

/-- The nearer of the number's two neighbours on the grid of step 10^e that reads back. -/
def onGrid (x : Binary64) (e : Int) : Option Decimal :=
  let lower : Decimal := ⟨below x e, e⟩
  let upper : Decimal := ⟨below x e + 1, e⟩
  match (interval x).contains lower, (interval x).contains upper with
  | true, true => some (if pastMiddle x e then upper else lower)
  | true, false => some lower
  | false, true => some upper
  | false, false => none

/-- The `k` with 10^(k-1) ≤ |x| < 10^k, for a finite number other than zero. -/
def decade (x : Binary64) : Int :=
  ((Nat.toDigits 10 (x.magnitude * Nat.pow 10 400 / unitsPerOne)).length : Int) - 400

/-- The number itself: a unit has as many decimal places as binary ones. -/
def expansion (x : Binary64) : Decimal := ⟨x.magnitude * Nat.pow 5 unitPlaces, -unitPlaces⟩

/-- The shortest decimal that reads back as the magnitude of a finite number. -/
def shortest (x : Binary64) : Decimal :=
  ((List.range 17).findSome? fun n : Nat => onGrid x (decade x - (n + 1))).getD (expansion x)

/-! ## The chosen decimal reads back -/

theorem onGrid_contains {x : Binary64} {e : Int} {d : Decimal} (h : onGrid x e = some d) :
    (interval x).contains d = true := by
  simp only [onGrid] at h
  split at h
  next hl hu =>
    split at h
    · exact Option.some.inj h ▸ hu
    · exact Option.some.inj h ▸ hl
  next hl _ => exact Option.some.inj h ▸ hl
  next _ hu => exact Option.some.inj h ▸ hu
  next => cases h

theorem units_mul_expansion (m k : Nat) :
    4 * Nat.pow 2 k * (m * Nat.pow 5 k) = 4 * m * Nat.pow 10 k := by
  have h : Nat.pow 10 k = Nat.pow 2 k * Nat.pow 5 k := Nat.mul_pow 2 5 k
  rw [h]
  ac_rfl

theorem contains_expansion (x : Binary64) (h : x.magnitude ≠ 0) :
    (interval x).contains (expansion x) = true := by
  have hg : 0 < x.gap := Binary64.two_pow_pos _
  have hm : x.gap ≤ x.magnitude :=
    Nat.le_mul_of_pos_left _ (Nat.pos_of_ne_zero fun hs => h (by simp [Binary64.magnitude, hs]))
  have hd : (expansion x).denominator = Nat.pow 10 unitPlaces := by
    rw [expansion, denominator, Int.neg_neg, Int.toNat_natCast]
  have hn :
      4 * unitsPerOne * (expansion x).numerator = 4 * x.magnitude * Nat.pow 10 unitPlaces := by
    have hz : (-(unitPlaces : Int)).toNat = 0 := by omega
    have ho : Nat.pow 10 0 = 1 := rfl
    rw [expansion, numerator, hz, ho, Nat.mul_one]
    unfold unitsPerOne
    generalize unitPlaces = k
    exact units_mul_expansion x.magnitude k
  have hp : 0 < Nat.pow 10 unitPlaces := ten_pow_pos _
  have hlow : (interval x).low < 4 * x.magnitude := by simp only [interval]; split <;> omega
  have hhigh : 4 * x.magnitude < (interval x).high := by simp only [interval]; omega
  have hl := (Nat.mul_lt_mul_right hp).2 hlow
  have hh := (Nat.mul_lt_mul_right hp).2 hhigh
  simp only [Interval.contains, hn, hd]
  split
  · exact decide_eq_true ⟨Nat.le_of_lt hl, Nat.le_of_lt hh⟩
  · exact decide_eq_true ⟨hl, hh⟩

theorem contains_shortest (x : Binary64) (h : x.magnitude ≠ 0) :
    (interval x).contains (shortest x) = true := by
  unfold shortest
  cases hf : (List.range 17).findSome? fun n : Nat => onGrid x (decade x - (n + 1)) with
  | none => exact contains_expansion x h
  | some d =>
    obtain ⟨n, _, hn⟩ := List.exists_of_findSome?_eq_some hf
    exact onGrid_contains hn

end Decimal
end CallContract
