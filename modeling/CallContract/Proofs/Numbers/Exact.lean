import CallContract.Proofs.Values.Order
import Mathlib.Algebra.Order.Field.Power
import Mathlib.Algebra.Order.Floor.Ring
import Mathlib.Data.Int.ConditionallyCompleteOrder
import Mathlib.Data.Rat.Floor
import Mathlib.Order.WithBotTop
import Mathlib.Tactic.FieldSimp
import Mathlib.Tactic.NormNum
import Mathlib.Tactic.Ring

/-!
# Numbers as exact rationals

The words of binary64 are read here as the standard reads them: a sign, a fraction and a power of
two, or an infinity, or nothing (`Binary64.exactValue?`). The model counts units of 2^-1074
instead. Both are the same line, so that comparing counts is comparing rationals, and no integer is
ever rounded to one of the 2^64 words.

**By parts.** An integer can also be compared with the whole part of a number, drawn into the range
of 128 bits, and where these are equal by the sign of what is left of the number
(`compareByParts`). For integers of 64 bits that is as exact.

**Results.**
* `exactValue?_ofBinary64`: the count of units and the standard's reading agree.
* `compare?_eq_some`: numbers compare as extended rationals.
* `compareByParts_eq`: so they do part by part.
* `integers_and_floats_compare_exactly`: equality and order of integers and floats.
-/
namespace CallContract

/-- The rational line with its two ends. -/
abbrev ExtendedRat : Type := WithBotTop ℚ

/-! ## Words as rationals -/

namespace Binary64

/-- The absolute value of a finite number; one without an exponent is subnormal. -/
def absolute (x : Binary64) : ℚ :=
  if x.exponent = 0 then (2 : ℚ) ^ (-1022 : ℤ) * (x.fraction / 2 ^ 52)
  else (2 : ℚ) ^ ((x.exponent : ℤ) - 1023) * (1 + x.fraction / 2 ^ 52)

/-- The exact number that a word stands for, if it is one. -/
def exactValue? (x : Binary64) : Option ExtendedRat :=
  if x.exponent = 2047 then
    if x.fraction = 0 then some (if x.isNegative then ⊥ else ⊤) else none
  else some ((if x.isNegative then -x.absolute else x.absolute : ℚ) : ExtendedRat)

theorem exactValue?_eq_none_iff {x : Binary64} : x.exactValue? = none ↔ x.isNaN = true := by
  rw [exactValue?, isNaN]
  by_cases he : x.exponent = 2047 <;> by_cases hf : x.fraction = 0 <;> simp [he, hf]

theorem unitsPerOne_eq : (unitsPerOne : ℚ) = 2 ^ (unitPlaces : ℤ) := by
  unfold unitsPerOne
  generalize unitPlaces = k
  simp

theorem cast_unitsPerOne_pos : (0 : ℚ) < unitsPerOne := Nat.cast_pos.2 unitsPerOne_pos

theorem magnitude_eq (x : Binary64) : (x.magnitude : ℚ) = x.absolute * unitsPerOne := by
  have h2 : (2 : ℚ) ≠ 0 := by norm_num
  rw [magnitude, significand, gap, absolute, unitsPerOne_eq, Nat.pow_eq, Nat.pow_eq]
  split
  · rename_i he
    have hpow : (2 : ℚ) ^ (-1022 : ℤ) * 2 ^ (unitPlaces : ℤ) = 2 ^ 52 := by
      rw [← zpow_add₀ h2, unitPlaces]
      norm_num
    rw [he, mul_right_comm, hpow]
    push_cast
    field_simp
  · rename_i he
    obtain ⟨k, hk⟩ : ∃ k, x.exponent = k + 1 := ⟨x.exponent - 1, by omega⟩
    have hpow : (2 : ℚ) ^ ((x.exponent : ℤ) - 1023) * 2 ^ (unitPlaces : ℤ) = 2 ^ 52 * 2 ^ k := by
      rw [← zpow_add₀ h2, ← zpow_natCast, ← zpow_natCast, ← zpow_add₀ h2, hk, unitPlaces]
      congr 1
      push_cast
      ring
    rw [mul_right_comm, hpow, hk, Nat.add_sub_cancel]
    push_cast
    field_simp
    norm_num

end Binary64

/-! ## Numbers as rationals -/

namespace Number

/-- The point of the extended line that a number is, if it is one. -/
def exactValue? : Number → Option ExtendedRat
  | .nan => none
  | .negInfinity => some ⊥
  | .units count => some ((count / Binary64.unitsPerOne : ℚ) : ExtendedRat)
  | .posInfinity => some ⊤

theorem exactValue?_ofInt (n : Int) : (ofInt n).exactValue? = some ((n : ℚ) : ExtendedRat) := by
  rw [ofInt, exactValue?, Int.cast_mul, Int.cast_natCast,
    mul_div_cancel_right₀ _ Binary64.cast_unitsPerOne_pos.ne']

theorem exactValue?_ofBinary64 (x : Binary64) : (ofBinary64 x).exactValue? = x.exactValue? := by
  have habs : (x.magnitude : ℚ) / Binary64.unitsPerOne = x.absolute := by
    rw [Binary64.magnitude_eq, mul_div_cancel_right₀ _ Binary64.cast_unitsPerOne_pos.ne']
  rw [ofBinary64, Binary64.exactValue?]
  cases hf : x.isFinite with
  | false =>
    have he : x.exponent = 2047 := by simpa [Binary64.isFinite] using hf
    rw [Binary64.isNaN, he, if_pos rfl]
    by_cases hz : x.fraction = 0
    · cases hs : x.isNegative <;> simp [hz, exactValue?]
    · simp [hz, exactValue?]
  | true =>
    have he : x.exponent ≠ 2047 := by simpa [Binary64.isFinite] using hf
    have hn : x.isNaN = false := by rw [Binary64.isNaN, beq_false_of_ne he, Bool.false_and]
    rw [hn, if_neg he]
    cases hs : x.isNegative with
    | false => exact congrArg (some ∘ fun q : ℚ => (q : ExtendedRat)) habs
    | true =>
      have hneg : ((-(x.magnitude : Int) : Int) : ℚ) / Binary64.unitsPerOne = -x.absolute := by
        rw [Int.cast_neg, Int.cast_natCast, neg_div, habs]
      exact congrArg (some ∘ fun q : ℚ => (q : ExtendedRat)) hneg

theorem compare_of_strictMono {α β : Type} [LinearOrder α] [LinearOrder β] {f : α → β}
    (hf : StrictMono f) (a b : α) : Ord.compare (f a) (f b) = Ord.compare a b := by
  rcases lt_trichotomy a b with h | rfl | h
  · rw [compare_lt_iff_lt.2 h, compare_lt_iff_lt.2 (hf h)]
  · rw [compare_eq_iff_eq.2 rfl, compare_eq_iff_eq.2 rfl]
  · rw [compare_gt_iff_gt.2 h, compare_gt_iff_gt.2 (hf h)]

theorem strictMono_units :
    StrictMono fun count : Int => ((count / Binary64.unitsPerOne : ℚ) : ExtendedRat) := by
  intro a b h
  have hq : (a / Binary64.unitsPerOne : ℚ) < b / Binary64.unitsPerOne :=
    div_lt_div_of_pos_right (Int.cast_lt.2 h) Binary64.cast_unitsPerOne_pos
  exact WithBotTop.coe_lt_coe.2 hq

/-- Numbers compare as the rationals that they are. -/
theorem compare?_eq_some {a b : Number} {r s : ExtendedRat} (ha : a.exactValue? = some r)
    (hb : b.exactValue? = some s) : a.compare? b = some (Ord.compare r s) := by
  have hlow (q : ℚ) : (⊥ : ExtendedRat) < (q : ExtendedRat) := WithBot.bot_lt_coe _
  have hhigh (q : ℚ) : (q : ExtendedRat) < ⊤ := WithBot.coe_lt_coe.2 (WithTop.coe_lt_top q)
  have hends : (⊥ : ExtendedRat) < ⊤ := bot_lt_top
  cases a <;> cases b <;> cases ha <;> cases hb <;> simp only [compare?, Option.some.injEq]
  case units.units => exact (compare_of_strictMono strictMono_units _ _).symm
  case negInfinity.negInfinity => exact (compare_eq_iff_eq.2 rfl).symm
  case posInfinity.posInfinity => exact (compare_eq_iff_eq.2 rfl).symm
  case negInfinity.units => exact (compare_lt_iff_lt.2 (hlow _)).symm
  case negInfinity.posInfinity => exact (compare_lt_iff_lt.2 hends).symm
  case units.negInfinity => exact (compare_gt_iff_gt.2 (hlow _)).symm
  case units.posInfinity => exact (compare_lt_iff_lt.2 (hhigh _)).symm
  case posInfinity.negInfinity => exact (compare_gt_iff_gt.2 hends).symm
  case posInfinity.units => exact (compare_gt_iff_gt.2 (hhigh _)).symm

/-! ## Comparison by parts -/

/-- The whole part of a rational, toward zero. -/
def wholePart (q : ℚ) : Int := if q < 0 then ⌈q⌉ else ⌊q⌋

/-- The nearest integer of 128 bits. -/
def saturate (n : Int) : Int := max (-2 ^ 127) (min n (2 ^ 127 - 1))

/-- The whole part of a number, as far as 128 bits can tell. -/
def saturatedWhole : ExtendedRat → Int
  | none => -2 ^ 127
  | some none => 2 ^ 127 - 1
  | some (some q) => saturate (wholePart q)

/-- What is left of a number without its whole part; of an infinity nothing is. -/
def remainder? : ExtendedRat → Option ℚ
  | some (some q) => some (q - wholePart q)
  | _ => none

/-- An integer compared with the whole part of a number and, if these are equal, zero with the
remainder. -/
def compareByParts (n : Int) (r : ExtendedRat) : Option Ordering :=
  match Ord.compare n (saturatedWhole r) with
  | .eq => (remainder? r).map (Ord.compare 0)
  | o => some o

theorem lt_of_lt_wholePart {n : Int} {q : ℚ} (h : n < wholePart q) : (n : ℚ) < q := by
  unfold wholePart at h
  split at h
  · exact Int.lt_ceil.1 h
  · exact lt_of_lt_of_le (Int.cast_lt.2 h) (Int.floor_le q)

theorem gt_of_wholePart_lt {n : Int} {q : ℚ} (h : wholePart q < n) : q < n := by
  unfold wholePart at h
  split at h
  · exact lt_of_le_of_lt (Int.le_ceil q) (Int.cast_lt.2 h)
  · exact Int.floor_lt.1 h

/-- No integer of 64 bits notices the end of the range of 128. -/
theorem compare_saturate {n : Int} (hn : -2 ^ 63 ≤ n) (hn' : n < 2 ^ 63) (k : Int) :
    Ord.compare n (saturate k) = Ord.compare n k := by
  unfold saturate
  rcases lt_trichotomy n k with h | rfl | h
  · rw [compare_lt_iff_lt.2 h, compare_lt_iff_lt]
    omega
  · rw [compare_eq_iff_eq.2 rfl, compare_eq_iff_eq]
    omega
  · rw [compare_gt_iff_gt.2 h, compare_gt_iff_gt]
    omega

theorem compareByParts_eq {n : Int} (hn : -2 ^ 63 ≤ n) (hn' : n < 2 ^ 63) (r : ExtendedRat) :
    compareByParts n r = some (Ord.compare ((n : ℚ) : ExtendedRat) r) := by
  match r with
  | none =>
    have hlow : (⊥ : ExtendedRat) < ((n : ℚ) : ExtendedRat) := WithBot.bot_lt_coe _
    have h : Ord.compare n (saturatedWhole none) = .gt := by
      rw [compare_gt_iff_gt, saturatedWhole]
      omega
    simp only [compareByParts, h]
    exact congrArg some (compare_gt_iff_gt.2 hlow).symm
  | some none =>
    have hhigh : ((n : ℚ) : ExtendedRat) < ⊤ := WithBot.coe_lt_coe.2 (WithTop.coe_lt_top _)
    have h : Ord.compare n (saturatedWhole (some none)) = .lt := by
      rw [compare_lt_iff_lt, saturatedWhole]
      omega
    simp only [compareByParts, h]
    exact congrArg some (compare_lt_iff_lt.2 hhigh).symm
  | some (some q) =>
    have hq : Ord.compare ((n : ℚ) : ExtendedRat) (q : ExtendedRat) = Ord.compare (n : ℚ) q :=
      compare_of_strictMono WithBotTop.coe_strictMono _ _
    simp only [compareByParts, saturatedWhole, compare_saturate hn hn']
    refine Eq.trans ?_ (congrArg some hq).symm
    rcases lt_trichotomy n (wholePart q) with h | h | h
    · rw [compare_lt_iff_lt.2 h, compare_lt_iff_lt.2 (lt_of_lt_wholePart h)]
    · have hr : Ord.compare 0 (q - wholePart q) = Ord.compare (n : ℚ) q := by
        have := compare_of_strictMono (f := fun z : ℚ => z - n) (fun _ _ h => sub_lt_sub_right h _)
          (n : ℚ) q
        rw [← this, h, sub_self]
      rw [compare_eq_iff_eq.2 h, remainder?, Option.map_some, hr]
    · rw [compare_gt_iff_gt.2 h, compare_gt_iff_gt.2 (gt_of_wholePart_lt h)]

end Number

/-! ## Values -/

namespace Value

theorem number?_of_toInt64? {v : Value} {n : Int64} (h : v.toInt64? = some n) :
    v.number? = some (.ofInt n.toInt) := by
  cases v with
  | bool b => cases h; cases b <;> rfl
  | int m => cases h; rfl
  | _ => cases h

theorem beq_of_number? {v w : Value} {a b : Number} (hv : v.number? = some a)
    (hw : w.number? = some b) : (v == w) = (a.compare? b == some .eq) := by
  rw [Bool.eq_iff_iff, beq_iff_equals, beq_iff_eq, Number.compare?_eq_some_eq]
  refine ⟨fun h => ?_, fun ⟨h, hn⟩ => .number hv (h ▸ hw) hn⟩
  cases h with
  | number hv' hw' hm =>
    cases hv.symm.trans hv'
    cases hw.symm.trans hw'
    exact ⟨rfl, hm⟩
  | _ => cases hv

theorem gt?_of_number? {v w : Value} {a b : Number} (hv : v.number? = some a)
    (hw : w.number? = some b) : v.gt? w = some (a.compare? b == some .gt) := by
  cases ho : a.compare? b with
  | none =>
    have h : compare v w = .undecided := by
      cases v <;> cases hv <;> cases w <;> cases hw <;> simp [compare, number?, ho]
    rw [gt?, h]
    rfl
  | some o =>
    have h : compare v w = .decided o := by
      cases v <;> cases hv <;> cases w <;> cases hw <;> simp [compare, number?, ho]
    rw [gt?, h]
    rfl

/-- An integer, a truth value among them, and a float compare as the exact numbers that they are,
and the same from both sides; a NaN equals no integer and none is greater or less. What comparison
part by part would find is the same. -/
theorem integers_and_floats_compare_exactly {v : Value} {n : Int64} (h : v.toInt64? = some n)
    (x : Binary64) :
    (x.isNaN = true →
      (v == .float x) = false ∧ (.float x == v) = false ∧
      v.gt? (.float x) = some false ∧ (Value.float x).gt? v = some false) ∧
    (x.isNaN = false → ∃ r, x.exactValue? = some r ∧
      (v == .float x) = decide (((n.toInt : ℚ) : ExtendedRat) = r) ∧
      (.float x == v) = (v == .float x) ∧
      v.gt? (.float x) = some (decide (r < ((n.toInt : ℚ) : ExtendedRat))) ∧
      (Value.float x).gt? v = some (decide (((n.toInt : ℚ) : ExtendedRat) < r)) ∧
      (Number.ofInt n.toInt).compare? (.ofBinary64 x) = Number.compareByParts n.toInt r) := by
  have hv := number?_of_toInt64? h
  have hx : (Value.float x).number? = some (.ofBinary64 x) := rfl
  rw [beq_of_number? hv hx, beq_of_number? hx hv, gt?_of_number? hv hx, gt?_of_number? hx hv]
  refine ⟨fun hnan => ?_, fun hnan => ?_⟩
  · have hb : Number.ofBinary64 x = .nan := by rw [Number.ofBinary64, if_pos hnan]
    rw [(Number.compare?_eq_none_iff _ _).2 (.inr hb),
      (Number.compare?_eq_none_iff _ _).2 (.inl hb)]
    exact ⟨rfl, rfl, rfl, rfl⟩
  · obtain ⟨r, hr⟩ : ∃ r, x.exactValue? = some r :=
      Option.ne_none_iff_exists'.1 fun hn => by simp [Binary64.exactValue?_eq_none_iff.1 hn] at hnan
    have hn := Number.exactValue?_ofInt n.toInt
    have hr' := (Number.exactValue?_ofBinary64 x).trans hr
    refine ⟨r, hr, ?_⟩
    rw [Number.compare?_eq_some hn hr', Number.compare?_eq_some hr' hn,
      Number.compareByParts_eq n.le_toInt n.toInt_lt]
    generalize ((n.toInt : ℚ) : ExtendedRat) = q
    have heq : ∀ a b : ExtendedRat, (some (Ord.compare a b) == some .eq) = decide (a = b) := by
      intro a b
      rw [Bool.eq_iff_iff, beq_iff_eq, Option.some.injEq, compare_eq_iff_eq, decide_eq_true_iff]
    have hgt : ∀ a b : ExtendedRat, (some (Ord.compare a b) == some .gt) = decide (b < a) := by
      intro a b
      rw [Bool.eq_iff_iff, beq_iff_eq, Option.some.injEq, compare_gt_iff_gt, decide_eq_true_iff]
    rw [heq, heq, hgt, hgt]
    exact ⟨rfl, decide_eq_decide.2 eq_comm, rfl, rfl, rfl⟩

/-- The integer behind 2^53, which no float is, is greater than 2^53; the largest integer is less
than 2^63, to which it would round; and truth compares with a NaN in no way. -/
theorem integers_next_to_floats_told_apart :
    let below : Binary64 := ⟨0x4340000000000000⟩
    let above : Binary64 := ⟨0x43e0000000000000⟩
    let nan : Binary64 := ⟨0x7ff8000000000000⟩
    let n : Int64 := 9007199254740993
    let m : Int64 := 9223372036854775807
    ((Value.int n).toInt64? = some n ∧ below.isNaN = false ∧ ∃ r, below.exactValue? = some r ∧
      (Value.int n).gt? (.float below) = some (decide (r < ((n.toInt : ℚ) : ExtendedRat))) ∧
      (Value.int n).gt? (.float below) = some true) ∧
    ((Value.int m).toInt64? = some m ∧ above.isNaN = false ∧ ∃ r, above.exactValue? = some r ∧
      (Value.float above).gt? (.int m) = some (decide (((m.toInt : ℚ) : ExtendedRat) < r)) ∧
      (Value.float above).gt? (.int m) = some true) ∧
    ((Value.bool true).toInt64? = some 1 ∧ nan.isNaN = true ∧
      (Value.bool true == .float nan) = false ∧
      (Value.float nan).gt? (.bool true) = some false) := by
  intro below above nan n m
  have hbelow : below.isNaN = false := by decide
  have habove : above.isNaN = false := by decide
  have hnan : nan.isNaN = true := by decide
  obtain ⟨r, hr, -, -, hgt, -, -⟩ :=
    (integers_and_floats_compare_exactly (v := .int n) rfl below).2 hbelow
  obtain ⟨q, hq, -, -, -, hlt, -⟩ :=
    (integers_and_floats_compare_exactly (v := .int m) rfl above).2 habove
  obtain ⟨heq, -, -, hno⟩ :=
    (integers_and_floats_compare_exactly (v := .bool true) rfl nan).1 hnan
  have hn : (Value.int n).gt? (.float below) = some true := by decide +kernel
  have hm : (Value.float above).gt? (.int m) = some true := by decide +kernel
  exact ⟨⟨rfl, hbelow, r, hr, hgt, hn⟩, ⟨rfl, habove, q, hq, hlt, hm⟩, rfl, hnan, heq, hno⟩

end Value
end CallContract
