import CallContract.Decimal.Shortest

/-!
# The text of a binary64 number

The shortest digits that read back, written positionally where the leading digit's power of ten is
moderate and with an exponent elsewhere. A `Layout` names the two powers at which the form
changes. Positional text always has a point and a digit behind it; scientific text has a point
only when there are digits for it, and no plus sign.

**Results.**
* `digits_ne_zero_last`: the digits written end in no zero.
-/
namespace CallContract.Decimal

/-- The leading powers of ten, from `positionalFrom` up to and without `scientificFrom`, that are
written without an exponent. -/
structure Layout where
  positionalFrom : Int
  scientificFrom : Int
deriving DecidableEq, Repr

/-- The digits of a decimal up to the last one that is not zero. -/
def digits (d : Decimal) : List Char :=
  ((Nat.toDigits 10 d.coefficient).reverse.dropWhile (· == '0')).reverse

/-- The power of ten of the leading digit. -/
def leadingPower (d : Decimal) : Int :=
  d.exponent + (Nat.toDigits 10 d.coefficient).length - 1

theorem digits_ne_zero_last {d : Decimal} : (digits d).getLast? ≠ some '0' := by
  intro h
  rw [digits, List.getLast?_reverse] at h
  have := List.head?_dropWhile_not (· == '0') (Nat.toDigits 10 d.coefficient).reverse
  simp [h] at this

namespace Layout

/-- Digits with the point behind the digit of power zero. -/
def positional (digits : List Char) (power : Int) : List Char :=
  if power < 0 then
    ['0', '.'] ++ List.replicate (-power - 1).toNat '0' ++ digits
  else
    let whole := power.toNat + 1
    let places := digits.drop whole
    digits.take whole ++ List.replicate (whole - digits.length) '0' ++ ['.'] ++
      (if places.isEmpty then ['0'] else places)

/-- Digits with the point behind the first one, and the power of ten written out. -/
def scientific (digits : List Char) (power : Int) : List Char :=
  let places := digits.drop 1
  digits.take 1 ++ (if places.isEmpty then [] else '.' :: places) ++ ['e'] ++
    (toString power).toList

/-- The text of a positive decimal. -/
def decimal (layout : Layout) (d : Decimal) : List Char :=
  let power := d.leadingPower
  if layout.positionalFrom ≤ power ∧ power < layout.scientificFrom then positional d.digits power
  else scientific d.digits power

/-- The text of a number; all NaNs are written alike. -/
def text (layout : Layout) (x : Binary64) : String :=
  if x.isNaN then "NaN"
  else
    let magnitude :=
      if !x.isFinite then ['i', 'n', 'f']
      else if x.magnitude = 0 then ['0', '.', '0']
      else layout.decimal (shortest x)
    String.ofList (if x.isNegative then '-' :: magnitude else magnitude)

end Layout
end CallContract.Decimal
