import CallContract.Decimal.Layout
import CallContract.Proofs.Texts.Delimited
import Mathlib.Algebra.Order.Field.Power
import Mathlib.Data.List.TakeWhile
import Mathlib.Tactic.FieldSimp
import Mathlib.Tactic.Linarith
import Mathlib.Tactic.NormNum
import Mathlib.Tactic.Ring

/-!
# Reading floats back

A text of digits, with a point among them and a power of ten behind them, stands for a rational
(`Decimal.Layout.read`). What a layout writes for a decimal stands for that decimal, and the decimal
chosen for a float lies in the interval of reals that round to it. No two of these intervals meet
unless they belong to one magnitude, so that the text determines the float.

**Results.**
* `read_decimal`: positional and scientific texts alike read back as the decimal written.
* `magnitude_eq_of_contains`: a decimal lies in one rounding interval at most.
* `text_eq_iff`: floats of one text are one float, up to the bits of a NaN.
-/
namespace CallContract

namespace Decimal

variable {d : Decimal}

/-! ## Decimals as rationals -/

def value (d : Decimal) : ℚ := d.coefficient * 10 ^ d.exponent

theorem value_eq_div (d : Decimal) : d.value = d.numerator / d.denominator := by
  rw [value, numerator, denominator, Nat.pow_eq, Nat.pow_eq]
  push_cast
  rcases Int.le_total 0 d.exponent with h | h
  · obtain ⟨k, hk⟩ := Int.eq_ofNat_of_zero_le h
    simp [hk]
  · obtain ⟨k, hk⟩ := Int.exists_eq_neg_ofNat h
    simp [hk, div_eq_mul_inv]

/-! ## Digits -/

/-- What the digits leave out are zeros. -/
theorem exists_toDigits_eq (d : Decimal) :
    ∃ k, Nat.toDigits 10 d.coefficient = d.digits ++ List.replicate k '0' := by
  refine ⟨((Nat.toDigits 10 d.coefficient).reverse.takeWhile (· == '0')).length, ?_⟩
  have hz : (Nat.toDigits 10 d.coefficient).reverse.takeWhile (· == '0') =
      List.replicate ((Nat.toDigits 10 d.coefficient).reverse.takeWhile (· == '0')).length '0' := by
    refine List.eq_replicate_iff.2 ⟨rfl, fun c hc => ?_⟩
    simpa using List.mem_takeWhile_imp hc
  conv_lhs =>
    rw [← List.reverse_reverse (Nat.toDigits 10 d.coefficient),
      ← List.takeWhile_append_dropWhile (p := (· == '0'))
        (l := (Nat.toDigits 10 d.coefficient).reverse),
      List.reverse_append, hz, List.reverse_replicate]
  rfl

theorem isDigit_of_mem_digits {c : Char} (h : c ∈ d.digits) : c.isDigit = true := by
  obtain ⟨k, hk⟩ := exists_toDigits_eq d
  exact Nat.isDigit_of_mem_toDigits (by decide) (by decide) (hk ▸ List.mem_append_left _ h)

theorem digits_ne_nil (h : d.coefficient ≠ 0) : d.digits ≠ [] := by
  intro hd
  obtain ⟨k, hk⟩ := exists_toDigits_eq d
  have := congrArg (Nat.ofDigitChars 10 · 0) hk
  rw [hd, List.nil_append] at this
  simp only [Nat.ofDigitChars_ten_toDigits, Nat.ofDigitChars_replicate_zero, Nat.mul_zero] at this
  exact h this

/-- The value, from the digits and the power of the leading one. -/
theorem value_eq_digits (d : Decimal) :
    d.value =
      Nat.ofDigitChars 10 d.digits 0 * (10 : ℚ) ^ (d.leadingPower + 1 - d.digits.length) := by
  obtain ⟨k, hk⟩ := exists_toDigits_eq d
  have hc : d.coefficient = 10 ^ k * Nat.ofDigitChars 10 d.digits 0 := by
    rw [← Nat.ofDigitChars_replicate_zero, ← Nat.ofDigitChars_append, ← hk,
      Nat.ofDigitChars_ten_toDigits]
  have hp : d.leadingPower + 1 - d.digits.length = d.exponent + k := by
    rw [leadingPower, hk, List.length_append, List.length_replicate]
    push_cast
    ring
  rw [value, hp, zpow_add₀ (by norm_num), zpow_natCast, hc]
  push_cast
  ring

/-! ## Reading -/

namespace Layout

/-- The number that digits with a point among them stand for. -/
def readPointed (text : List Char) : ℚ :=
  let whole := text.takeWhile (· != '.')
  let places := (text.dropWhile (· != '.')).drop 1
  Nat.ofDigitChars 10 (whole ++ places) 0 / 10 ^ places.length

/-- The number that a text stands for, with a power of ten behind an `e` or none. -/
def read (text : List Char) : ℚ :=
  readPointed (text.takeWhile (· != 'e')) *
    10 ^ Text.readInt ((text.dropWhile (· != 'e')).drop 1)

variable {digits whole : List Char}

theorem takeWhile_ne_of_isDigit {c : Char} (hc : c.isDigit = false) {text : List Char}
    (h : ∀ a ∈ text, a.isDigit = true) (rest : List Char) :
    (text ++ c :: rest).takeWhile (· != c) = text ∧
      (text ++ c :: rest).dropWhile (· != c) = c :: rest := by
  have hne : ∀ a ∈ text, (a != c) = true := fun a ha =>
    bne_iff_ne.2 fun he => Bool.false_ne_true (hc ▸ he ▸ h a ha)
  rw [List.takeWhile_append_of_pos hne, List.dropWhile_append_of_pos hne]
  simp

theorem readPointed_of_isDigit {text : List Char} (h : ∀ c ∈ text, c.isDigit = true) :
    readPointed text = Nat.ofDigitChars 10 text 0 := by
  have hne : ∀ c ∈ text, (c != '.') = true := fun c hc =>
    bne_iff_ne.2 fun he => absurd (he ▸ h c hc) (by decide)
  rw [readPointed, List.takeWhile_eq_self_iff.2 hne, List.dropWhile_eq_nil_iff.2 hne]
  simp

theorem read_of_notMem {text : List Char} (h : 'e' ∉ text) : read text = readPointed text := by
  have hne : ∀ c ∈ text, (c != 'e') = true := fun c hc => bne_iff_ne.2 fun he => h (he ▸ hc)
  rw [read, List.takeWhile_eq_self_iff.2 hne, List.dropWhile_eq_nil_iff.2 hne]
  simp [Text.readInt]

theorem read_exponent {text : List Char} (h : 'e' ∉ text) (rest : List Char) :
    read (text ++ 'e' :: rest) = readPointed text * 10 ^ Text.readInt rest := by
  have hne : ∀ c ∈ text, (c != 'e') = true := fun c hc => bne_iff_ne.2 fun he => h (he ▸ hc)
  rw [read, List.takeWhile_append_of_pos hne, List.dropWhile_append_of_pos hne]
  simp

theorem readPointed_point (hw : ∀ c ∈ whole, c.isDigit = true) (places : List Char) :
    readPointed (whole ++ '.' :: places) =
      Nat.ofDigitChars 10 (whole ++ places) 0 / 10 ^ places.length := by
  obtain ⟨ht, hd⟩ := takeWhile_ne_of_isDigit (by decide : '.'.isDigit = false) hw places
  rw [readPointed, ht, hd]
  rfl

/-- What digits stand for when the leading one has this power of ten. -/
def digitsValue (digits : List Char) (power : Int) : ℚ :=
  Nat.ofDigitChars 10 digits 0 * 10 ^ (power + 1 - digits.length)

theorem readPointed_positional (h : ∀ c ∈ digits, c.isDigit = true) (power : Int) :
    readPointed (positional digits power) = digitsValue digits power := by
  have zeros (k : Nat) : ∀ c ∈ List.replicate k '0', c.isDigit = true := fun c hc =>
    (List.mem_replicate.1 hc).2 ▸ rfl
  unfold positional digitsValue
  split
  · -- zeros stand between the point and the digits
    obtain ⟨k, hk⟩ : ∃ k : Nat, power + 1 = -k := ⟨(-power - 1).toNat, by omega⟩
    have hz : (-power - 1).toNat = k := by omega
    have hread := readPointed_point (by simp : ∀ c ∈ ['0'], c.isDigit = true)
      (List.replicate k '0' ++ digits)
    rw [hz, hk]
    simp only [List.cons_append, List.nil_append] at hread ⊢
    rw [hread, Nat.ofDigitChars_cons, Nat.ofDigitChars_append, Nat.ofDigitChars_replicate_zero,
      List.length_append, List.length_replicate, zpow_sub₀ (by norm_num), zpow_neg, zpow_natCast,
      zpow_natCast, pow_add]
    simp
    field_simp
  · obtain ⟨n, hn⟩ : ∃ n : Nat, power = n := ⟨power.toNat, by omega⟩
    have hw : power.toNat + 1 = n + 1 := by omega
    have hwhole : ∀ c ∈ digits.take (n + 1) ++ List.replicate (n + 1 - digits.length) '0',
        c.isDigit = true := fun c hc =>
      (List.mem_append.1 hc).elim (fun hc => h c (List.mem_of_mem_take hc)) (zeros _ c)
    have hread := readPointed_point hwhole
    rw [hw, hn]
    simp only [List.append_assoc, List.cons_append, List.nil_append] at hread ⊢
    rw [hread]
    rcases Nat.lt_or_ge (n + 1) digits.length with hlt | hle
    · -- the point stands among the digits
      obtain ⟨k, hk⟩ : ∃ k : Nat, digits.length = n + 1 + k := ⟨digits.length - (n + 1), by omega⟩
      have hp : (n : Int) + 1 - digits.length = -k := by omega
      have hdrop : (digits.drop (n + 1)).isEmpty = false := by
        rw [List.isEmpty_eq_false_iff, ne_eq, List.drop_eq_nil_iff]
        omega
      rw [hdrop, hp, Nat.sub_eq_zero_of_le hlt.le, zpow_neg, zpow_natCast]
      simp [hk]
      rfl
    · -- zeros stand between the digits and the point
      obtain ⟨k, hk⟩ : ∃ k : Nat, n + 1 - digits.length = k ∧ (n : Int) + 1 - digits.length = k :=
        ⟨n + 1 - digits.length, rfl, by omega⟩
      rw [List.drop_eq_nil_of_le hle, List.take_of_length_le hle, hk.1, hk.2,
        Nat.ofDigitChars_append, Nat.ofDigitChars_append, Nat.ofDigitChars_replicate_zero,
        zpow_natCast]
      simp [Nat.ofDigitChars_cons]
      ring

theorem read_scientific (h : ∀ c ∈ digits, c.isDigit = true) (hne : digits ≠ []) (power : Int) :
    read (scientific digits power) = digitsValue digits power := by
  obtain ⟨d, places, rfl⟩ := List.exists_cons_of_ne_nil hne
  have hd : ∀ c ∈ [d], c.isDigit = true := fun c hc => h c (by simp_all)
  have hexp : power + 1 - (d :: places).length = power - places.length := by
    rw [List.length_cons]; push_cast; ring
  unfold scientific digitsValue
  rw [List.append_assoc _ ['e'], List.singleton_append, List.drop_one, List.tail_cons, hexp,
    zpow_sub₀ (by norm_num), zpow_natCast]
  cases places with
  | nil =>
    have he : 'e' ∉ [d] := fun he => absurd (hd _ he) (by decide)
    have := read_exponent he (toString power).toList
    rw [readPointed_of_isDigit hd, Text.readInt_toString] at this
    simpa using this
  | cons p places =>
    have he : 'e' ∉ [d] ++ '.' :: p :: places := fun he => by
      rcases List.mem_append.1 he with he | he
      · exact absurd (hd _ he) (by decide)
      · rcases List.mem_cons.1 he with he | he
        · exact absurd he (by decide)
        · exact absurd (h _ (List.mem_cons_of_mem _ he)) (by decide)
    have := read_exponent he (toString power).toList
    rw [readPointed_point hd, Text.readInt_toString] at this
    rw [List.isEmpty_cons, List.take_one]
    simpa [div_mul_eq_mul_div, mul_div_assoc] using this

/-! ## Numerals -/

/-- The shape of what a layout writes for a decimal: it begins with a digit, has nothing in it but
digits and the three marks, and is no row of digits alone. -/
structure IsNumeral (text : List Char) : Prop where
  marks : ∀ c ∈ text, c.isDigit = true ∨ c ∈ ['.', 'e', '-']
  head : ∃ c cs, text = c :: cs ∧ c.isDigit = true
  not_plain : '.' ∈ text ∨ 'e' ∈ text

theorem isNumeral_zero : IsNumeral ['0', '.', '0'] :=
  ⟨by simp, ⟨'0', _, rfl, rfl⟩, .inl (by decide)⟩

theorem mem_positional (h : ∀ c ∈ digits, c.isDigit = true) {power : Int} {c : Char}
    (hc : c ∈ positional digits power) : c.isDigit = true ∨ c = '.' := by
  have hzero : '0'.isDigit = true := rfl
  unfold positional at hc
  split at hc <;> simp only [List.mem_append, List.mem_cons, List.mem_replicate,
    List.not_mem_nil, or_false] at hc
  · rcases hc with ((rfl | rfl) | ⟨-, rfl⟩) | hc
    · exact .inl hzero
    · exact .inr rfl
    · exact .inl hzero
    · exact .inl (h c hc)
  · rcases hc with ((hc | ⟨-, rfl⟩) | rfl) | hc
    · exact .inl (h c (List.mem_of_mem_take hc))
    · exact .inl hzero
    · exact .inr rfl
    · split at hc
      · exact .inl (List.mem_singleton.1 hc ▸ hzero)
      · exact .inl (h c (List.mem_of_mem_drop hc))

theorem isNumeral_positional (h : ∀ c ∈ digits, c.isDigit = true) (hne : digits ≠ [])
    (power : Int) : IsNumeral (positional digits power) where
  marks c hc := (mem_positional h hc).imp_right (by rintro rfl; decide)
  head := by
    obtain ⟨d, digits, rfl⟩ := List.exists_cons_of_ne_nil hne
    unfold positional
    split
    · exact ⟨'0', _, rfl, rfl⟩
    · exact ⟨d, _, rfl, h d List.mem_cons_self⟩
  not_plain := .inl (by unfold positional; split <;> simp)

theorem isNumeral_scientific (h : ∀ c ∈ digits, c.isDigit = true) (hne : digits ≠ [])
    (power : Int) : IsNumeral (scientific digits power) where
  marks c hc := by
    simp only [scientific, List.mem_append, List.mem_singleton] at hc
    rcases hc with ((hc | hc) | rfl) | hc
    · exact .inl (h c (List.mem_of_mem_take hc))
    · split at hc
      · cases hc
      · rcases List.mem_cons.1 hc with rfl | hc
        · exact .inr (by decide)
        · exact .inl (h c (List.mem_of_mem_drop hc))
    · exact .inr (by decide)
    · exact (Text.isDigit_or_minus_of_mem_int hc).imp_right (by rintro rfl; decide)
  head := by
    obtain ⟨d, digits, rfl⟩ := List.exists_cons_of_ne_nil hne
    exact ⟨d, _, rfl, h d List.mem_cons_self⟩
  not_plain := .inr (by simp [scientific])

theorem isNumeral_decimal (layout : Layout) (h : d.coefficient ≠ 0) :
    IsNumeral (layout.decimal d) := by
  simp only [decimal]
  split
  · exact isNumeral_positional (fun _ => isDigit_of_mem_digits) (digits_ne_nil h) _
  · exact isNumeral_scientific (fun _ => isDigit_of_mem_digits) (digits_ne_nil h) _

theorem read_decimal (layout : Layout) (h : d.coefficient ≠ 0) :
    read (layout.decimal d) = d.value := by
  have hdigits : ∀ c ∈ d.digits, c.isDigit = true := fun _ => isDigit_of_mem_digits
  have hvalue : d.value = digitsValue d.digits d.leadingPower := value_eq_digits d
  simp only [decimal]
  split
  · have he : 'e' ∉ positional d.digits d.leadingPower := fun he =>
      (mem_positional hdigits he).elim (by decide) (by decide)
    rw [read_of_notMem he, readPointed_positional hdigits, hvalue]
  · rw [read_scientific hdigits (digits_ne_nil h), hvalue]

end Layout

/-! ## Rounding intervals -/

theorem value_pos (h : d.coefficient ≠ 0) : 0 < d.value :=
  mul_pos (Nat.cast_pos.2 (Nat.pos_of_ne_zero h)) (zpow_pos (by norm_num) _)

/-- The decimal in quarters of a binary64 unit. -/
def quarters (d : Decimal) : ℚ := 4 * Binary64.unitsPerOne * d.value

theorem Interval.contains_iff {i : Interval} :
    i.contains d = true ↔
      i.low ≤ d.quarters ∧ d.quarters ≤ i.high ∧
        (i.closed = false → i.low < d.quarters ∧ d.quarters < i.high) := by
  have hden : (0 : ℚ) < d.denominator := Nat.cast_pos.2 (denominator_pos d)
  have hq : d.quarters = (4 * Binary64.unitsPerOne * d.numerator : Nat) / d.denominator := by
    rw [quarters, value_eq_div]
    push_cast
    ring
  have hle (n : Nat) : ((n : ℚ) ≤ d.quarters ↔
      n * d.denominator ≤ 4 * Binary64.unitsPerOne * d.numerator) := by
    rw [hq, le_div_iff₀ hden, ← Nat.cast_mul, Nat.cast_le]
  have hge (n : Nat) : (d.quarters ≤ (n : ℚ) ↔
      4 * Binary64.unitsPerOne * d.numerator ≤ n * d.denominator) := by
    rw [hq, div_le_iff₀ hden, ← Nat.cast_mul, Nat.cast_le]
  rw [lt_iff_not_ge, lt_iff_not_ge, hle, hge, hle, hge, contains]
  cases i.closed <;> simp
  omega

end Decimal

namespace Binary64

variable {x y : Binary64}

theorem significand_lt (x : Binary64) : x.significand < 2 ^ 53 := by
  have hf := x.fraction_lt
  rw [significand, Nat.pow_eq] at *
  split <;> omega

/-- Only the lowest numbers lack the leading bit, and between them the gap is one unit. -/
theorem significand_eq_of_gap (h : 1 < x.gap) :
    1 < x.exponent ∧ x.significand = 2 ^ 52 + x.fraction := by
  have he : x.exponent - 1 ≠ 0 := fun he => by simp [gap, he] at h
  refine ⟨by omega, ?_⟩
  rw [significand, if_neg (by omega), Nat.pow_eq]

theorem gap_pos (x : Binary64) : 0 < x.gap := two_pow_pos _

theorem two_mul_gap_le (h : x.gap < y.gap) : 2 * x.gap ≤ y.gap := by
  simp only [gap, Nat.pow_eq] at *
  have hlt := (Nat.pow_lt_pow_iff_right (by decide : 1 < 2)).1 h
  calc 2 * 2 ^ (x.exponent - 1) = 2 ^ (x.exponent - 1 + 1) := by rw [Nat.pow_succ, Nat.mul_comm]
    _ ≤ 2 ^ (y.exponent - 1) := Nat.pow_le_pow_right (by decide) hlt

/-- Numbers with the wider gap are the greater ones. -/
theorem magnitude_lt_of_gap_lt (h : x.gap < y.gap) : x.magnitude < y.magnitude := by
  have hgap := two_mul_gap_le h
  obtain ⟨-, hs⟩ := significand_eq_of_gap (x := y) (Nat.lt_of_le_of_lt x.gap_pos h)
  calc x.significand * x.gap < 2 ^ 53 * x.gap :=
        Nat.mul_lt_mul_of_pos_right x.significand_lt x.gap_pos
    _ = 2 ^ 52 * (2 * x.gap) := by ring
    _ ≤ 2 ^ 52 * y.gap := Nat.mul_le_mul_left _ hgap
    _ ≤ y.significand * y.gap := Nat.mul_le_mul_right _ (hs ▸ Nat.le_add_right _ _)

theorem fields_eq_of_magnitude_eq (h : x.magnitude = y.magnitude) :
    x.exponent = y.exponent ∧ x.fraction = y.fraction := by
  have hgap : x.gap = y.gap := by
    rcases Nat.lt_trichotomy x.gap y.gap with hlt | heq | hlt
    · exact absurd h (magnitude_lt_of_gap_lt hlt).ne
    · exact heq
    · exact absurd h (magnitude_lt_of_gap_lt hlt).ne'
  have hs : x.significand = y.significand := by
    rw [magnitude, magnitude, hgap] at h
    exact Nat.eq_of_mul_eq_mul_right y.gap_pos h
  have he : x.exponent - 1 = y.exponent - 1 := Nat.pow_right_injective (by decide : 2 ≤ 2) hgap
  have hfx := x.fraction_lt
  have hfy := y.fraction_lt
  simp only [significand, Nat.pow_eq] at *
  split at hs <;> split at hs <;> omega

end Binary64

namespace Decimal

variable {x y : Binary64}

/-- The intervals of two magnitudes touch at most at their ends, and then not in both. -/
theorem interval_high_le_low (h : x.magnitude < y.magnitude) :
    (interval x).high ≤ (interval y).low ∧
      ((interval x).high = (interval y).low →
        (interval x).closed = false ∨ (interval y).closed = false) := by
  have hgx := x.gap_pos
  have hgy := y.gap_pos
  simp only [interval, Binary64.magnitude, beq_eq_false_iff_ne] at *
  rcases Nat.lt_trichotomy x.gap y.gap with hlt | heq | hlt
  · -- `y` is at least the power of two at which the wider gap begins
    obtain ⟨he, hs⟩ := Binary64.significand_eq_of_gap (x := y) (Nat.lt_of_le_of_lt hgx hlt)
    have hgap := Binary64.two_mul_gap_le hlt
    have hsx := x.significand_lt
    have hx : x.significand * x.gap ≤ 9007199254740991 * x.gap := Nat.mul_le_mul_right _ (by omega)
    have hless (hne : x.significand ≠ 9007199254740991) :
        x.significand * x.gap ≤ 9007199254740990 * x.gap := Nat.mul_le_mul_right _ (by omega)
    have hy : y.significand * y.gap = 4503599627370496 * y.gap + y.fraction * y.gap := by
      rw [hs, Nat.add_mul]
      norm_num
    split
    · next hz =>
      have hf : y.fraction * y.gap = 0 := by rw [hz.1, Nat.zero_mul]
      have hlow : 4 * (y.significand * y.gap) - y.gap + y.gap = 4 * (y.significand * y.gap) :=
        Nat.sub_add_cancel (by linarith)
      refine ⟨by linarith, fun hmeet => .inl fun heven => ?_⟩
      have hodd : ¬9007199254740991 % 2 = 0 := by decide
      have := hless fun hlast => hodd (hlast ▸ heven)
      linarith
    · next hz =>
      have hf : 1 * y.gap ≤ y.fraction * y.gap := Nat.mul_le_mul_right _ (by omega)
      omega
  · rw [heq] at h ⊢
    have hs : x.significand < y.significand := Nat.lt_of_mul_lt_mul_right h
    obtain hnext | hbeyond :
        y.significand = x.significand + 1 ∨ x.significand + 2 ≤ y.significand := by omega
    · rw [hnext, Nat.add_mul]
      split <;> omega
    · have hy : (x.significand + 2) * y.gap ≤ y.significand * y.gap :=
        Nat.mul_le_mul_right _ hbeyond
      rw [Nat.add_mul] at hy
      split <;> omega
  · exact absurd h (Nat.lt_asymm (Binary64.magnitude_lt_of_gap_lt hlt))

/-- Decimals of one value lie in the rounding intervals of one magnitude. -/
theorem magnitude_eq_of_contains {d d' : Decimal} (h : (interval x).contains d = true)
    (h' : (interval y).contains d' = true) (hv : d.value = d'.value) :
    x.magnitude = y.magnitude := by
  have apart {x y : Binary64} {d d' : Decimal} (h : (interval x).contains d = true)
      (h' : (interval y).contains d' = true) (hv : d.value = d'.value) :
      ¬x.magnitude < y.magnitude := by
    intro hlt
    obtain ⟨hle, hends⟩ := interval_high_le_low hlt
    obtain ⟨-, hhigh, hopen⟩ := Interval.contains_iff.1 h
    obtain ⟨hlow, -, hopen'⟩ := Interval.contains_iff.1 h'
    have hq : d.quarters = d'.quarters := by rw [quarters, quarters, hv]
    have hle' : (interval y).low ≤ (interval x).high :=
      Nat.cast_le.1 (hlow.trans (hq ▸ hhigh))
    have hmeet := Nat.le_antisymm hle hle'
    rcases hends hmeet with hx | hy
    · have := (hopen hx).2
      rw [hmeet, hq] at this
      exact absurd this (not_lt.2 hlow)
    · have := (hopen' hy).1
      rw [← hmeet, ← hq] at this
      exact absurd this (not_lt.2 hhigh)
  exact Nat.le_antisymm (not_lt.1 (apart h' h hv.symm)) (not_lt.1 (apart h h' hv))

theorem coefficient_shortest_ne_zero (h : x.magnitude ≠ 0) : (shortest x).coefficient ≠ 0 := by
  intro hz
  have hgap := x.gap_pos
  have hm : 1 * x.gap ≤ x.magnitude :=
    Nat.mul_le_mul_right _ (Nat.pos_of_ne_zero fun hs => h (by simp [Binary64.magnitude, hs]))
  have hlow : 0 < (interval x).low := by
    simp only [interval]
    split <;> omega
  have hle := (Interval.contains_iff.1 (contains_shortest x h)).1
  rw [quarters, value, hz, Nat.cast_zero, zero_mul, mul_zero] at hle
  exact absurd (Nat.cast_pos.2 hlow) (not_lt.2 hle)

end Decimal

/-! ## Texts of floats -/

namespace Binary64

/-- One float, or two NaNs. -/
def Identical (x y : Binary64) : Prop := x = y ∨ x.isNaN = true ∧ y.isNaN = true

theorem eq_of_fields_eq {x y : Binary64} (hs : x.isNegative = y.isNegative)
    (he : x.exponent = y.exponent) (hf : x.fraction = y.fraction) : x = y := by
  have hx := x.bits.toNat_lt
  have hy := y.bits.toNat_lt
  have hs := decide_eq_decide.1 hs
  simp only [exponent, fraction, word, Nat.pow_eq] at *
  have hbits : x.bits.toNat = y.bits.toNat := by omega
  cases x
  cases y
  exact congrArg Binary64.mk (UInt64.toNat_inj.1 hbits)

end Binary64

namespace Decimal.Layout

variable {layout : Layout} {x y : Binary64}

/-- The text of a number other than a NaN, without its sign. -/
def magnitudeText (layout : Layout) (x : Binary64) : List Char :=
  if !x.isFinite then ['i', 'n', 'f']
  else if x.magnitude = 0 then ['0', '.', '0']
  else layout.decimal (shortest x)

/-- The same behind its sign. -/
def signedText (layout : Layout) (negative : Bool) (x : Binary64) : List Char :=
  if negative then '-' :: layout.magnitudeText x else layout.magnitudeText x

theorem toList_text (layout : Layout) (x : Binary64) :
    (layout.text x).toList =
      if x.isNaN then ['N', 'a', 'N'] else layout.signedText x.isNegative x := by
  unfold text signedText magnitudeText
  split
  · rfl
  · rw [String.toList_ofList]

theorem isNumeral_magnitudeText (layout : Layout) (h : x.isFinite = true) :
    IsNumeral (layout.magnitudeText x) := by
  unfold magnitudeText
  rw [h]
  by_cases hm : x.magnitude = 0
  · simpa [hm] using isNumeral_zero
  · simpa [hm] using isNumeral_decimal layout (coefficient_shortest_ne_zero hm)

theorem read_magnitudeText (h : x.isFinite = true) :
    read (layout.magnitudeText x) = if x.magnitude = 0 then 0 else (shortest x).value := by
  unfold magnitudeText
  by_cases hm : x.magnitude = 0
  · have hread := readPointed_point (by simp : ∀ c ∈ ['0'], c.isDigit = true) ['0']
    have he : 'e' ∉ ['0', '.', '0'] := by decide
    simp only [h, hm, Bool.not_true, Bool.false_eq_true, if_false, if_true]
    rw [read_of_notMem he]
    simpa [Nat.ofDigitChars_cons] using hread
  · simpa [h, hm] using read_decimal layout (coefficient_shortest_ne_zero hm)

theorem magnitude_eq_of_magnitudeText (hx : x.isFinite = true) (hy : y.isFinite = true)
    (h : layout.magnitudeText x = layout.magnitudeText y) : x.magnitude = y.magnitude := by
  have hread := congrArg read h
  rw [read_magnitudeText hx, read_magnitudeText hy] at hread
  have positive {z : Binary64} (hz : z.magnitude ≠ 0) : (shortest z).value ≠ 0 :=
    (value_pos (coefficient_shortest_ne_zero hz)).ne'
  by_cases hmx : x.magnitude = 0 <;> by_cases hmy : y.magnitude = 0 <;>
    simp only [hmx, hmy, if_true, if_false] at hread
  · rw [hmx, hmy]
  · exact absurd hread.symm (positive hmy)
  · exact absurd hread (positive hmx)
  · exact magnitude_eq_of_contains (contains_shortest x hmx) (contains_shortest y hmy) hread

theorem fraction_eq_zero (hf : x.isFinite = false) (hn : x.isNaN = false) :
    x.exponent = 2047 ∧ x.fraction = 0 := by
  simp_all [Binary64.isFinite, Binary64.isNaN]

/-- The text begins with a digit or with the word for infinity. -/
theorem head_magnitudeText (layout : Layout) (x : Binary64) :
    ∃ c cs, layout.magnitudeText x = c :: cs ∧ (c.isDigit = true ∨ c = 'i') := by
  cases hf : x.isFinite with
  | true =>
    obtain ⟨c, cs, hc, hd⟩ := (isNumeral_magnitudeText layout hf).head
    exact ⟨c, cs, hc, .inl hd⟩
  | false => exact ⟨'i', ['n', 'f'], by simp [magnitudeText, hf], .inr rfl⟩

theorem fields_eq_of_magnitudeText (hx : x.isNaN = false) (hy : y.isNaN = false)
    (h : layout.magnitudeText x = layout.magnitudeText y) :
    x.exponent = y.exponent ∧ x.fraction = y.fraction := by
  have infinite {z : Binary64} (hz : z.isFinite = false) :
      layout.magnitudeText z = ['i', 'n', 'f'] := by simp [magnitudeText, hz]
  have numeral {z : Binary64} (hz : z.isFinite = true) :
      layout.magnitudeText z ≠ ['i', 'n', 'f'] := fun he => by
    obtain ⟨c, cs, hc, hd⟩ := (isNumeral_magnitudeText layout hz).head
    rw [he] at hc
    exact absurd ((List.cons.inj hc).1 ▸ hd) (by decide)
  cases hfx : x.isFinite <;> cases hfy : y.isFinite
  · obtain ⟨hex, hzx⟩ := fraction_eq_zero hfx hx
    obtain ⟨hey, hzy⟩ := fraction_eq_zero hfy hy
    exact ⟨hex.trans hey.symm, hzx.trans hzy.symm⟩
  · exact absurd (h.symm.trans (infinite hfx)) (numeral hfy)
  · exact absurd (h.trans (infinite hfy)) (numeral hfx)
  · exact Binary64.fields_eq_of_magnitude_eq (magnitude_eq_of_magnitudeText hfx hfy h)

theorem eq_of_signedText_eq {a b : Bool} (h : layout.signedText a x = layout.signedText b y) :
    a = b ∧ layout.magnitudeText x = layout.magnitudeText y := by
  have unsigned (z : Binary64) (cs : List Char) : layout.magnitudeText z ≠ '-' :: cs := fun he => by
    obtain ⟨c, cs', hc, hd⟩ := head_magnitudeText layout z
    rw [he] at hc
    exact absurd ((List.cons.inj hc).1 ▸ hd) (by decide)
  cases a <;> cases b
  · exact ⟨rfl, h⟩
  · exact absurd h (unsigned x _)
  · exact absurd h.symm (unsigned y _)
  · exact ⟨rfl, (List.cons.inj h).2⟩

theorem signedText_ne_nan (negative : Bool) (x : Binary64) :
    layout.signedText negative x ≠ ['N', 'a', 'N'] := by
  obtain ⟨c, cs, hc, hd⟩ := head_magnitudeText layout x
  rw [signedText, hc]
  cases negative
  · exact fun he => absurd ((List.cons.inj he).1 ▸ hd) (by decide)
  · exact fun he => absurd (List.cons.inj he).1 (by decide)

/-- Two floats are written alike exactly when they are one, or when neither is a number. -/
theorem text_eq_iff : layout.text x = layout.text y ↔ x.Identical y := by
  constructor
  · intro h
    rw [← String.toList_inj, toList_text, toList_text] at h
    cases hx : x.isNaN <;> cases hy : y.isNaN <;>
      simp only [hx, hy, Bool.false_eq_true, if_false, if_true] at h
    · obtain ⟨hs, hm⟩ := eq_of_signedText_eq h
      obtain ⟨he, hf⟩ := fields_eq_of_magnitudeText hx hy hm
      exact .inl (Binary64.eq_of_fields_eq hs he hf)
    · exact absurd h (signedText_ne_nan _ x)
    · exact absurd h.symm (signedText_ne_nan _ y)
    · exact .inr ⟨hx, hy⟩
  · rintro (rfl | ⟨hx, hy⟩)
    · rfl
    · rw [← String.toList_inj, toList_text, toList_text, hx, hy]
      rfl

/-- The characters that texts of floats are made of. -/
def isMark (c : Char) : Bool := c.isDigit || c ∈ ['.', 'e', '-', 'i', 'n', 'f', 'N', 'a']

theorem isMark_of_mem_text {c : Char} (h : c ∈ (layout.text x).toList) : isMark c = true := by
  have magnitude (h : c ∈ layout.magnitudeText x) : isMark c = true := by
    cases hf : x.isFinite with
    | true =>
      rcases (isNumeral_magnitudeText layout hf).marks c h with hd | hm
      · rw [isMark, hd, Bool.true_or]
      · exact List.all_eq_true.1 (by decide : ['.', 'e', '-'].all isMark = true) c hm
    | false =>
      simp only [magnitudeText, hf, Bool.not_false, if_true] at h
      exact List.all_eq_true.1 (by decide : ['i', 'n', 'f'].all isMark = true) c h
  rw [toList_text] at h
  split at h
  · exact List.all_eq_true.1 (by decide : ['N', 'a', 'N'].all isMark = true) c h
  · rw [signedText] at h
    split at h
    · exact (List.mem_cons.1 h).elim (fun hc => hc ▸ rfl) magnitude
    · exact magnitude h

/-- Some character of the text is in no whole number's text. -/
theorem exists_mem_text (layout : Layout) (x : Binary64) :
    ∃ c ∈ (layout.text x).toList, c.isDigit = false ∧ c ≠ '-' := by
  have magnitude : ∃ c ∈ layout.magnitudeText x, c.isDigit = false ∧ c ≠ '-' := by
    cases hf : x.isFinite with
    | true =>
      rcases (isNumeral_magnitudeText layout hf).not_plain with h | h
      · exact ⟨'.', h, by decide⟩
      · exact ⟨'e', h, by decide⟩
    | false => exact ⟨'i', by simp [magnitudeText, hf], by decide⟩
  obtain ⟨c, hc, hd⟩ := magnitude
  rw [toList_text]
  split
  · exact ⟨'N', by decide⟩
  · rw [signedText]
    split
    · exact ⟨c, List.mem_cons_of_mem _ hc, hd⟩
    · exact ⟨c, hc, hd⟩

end Decimal.Layout
end CallContract
