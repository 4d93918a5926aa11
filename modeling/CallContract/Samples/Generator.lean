import CallContract.Samples.Random
import CallContract.Value.Basic

/-!
# Generated values

Values drawn from a random source: integers, lists that grow, words of small letters, and a value
of any type. Each request states the shape that its answer promises.

**Results.**
* `isMet_int`, `isMet_positiveInt`: integers keep their promised range.
* `length_climb`: a list that grows has the length asked for.
-/
namespace CallContract.Samples

namespace Generator

variable {σ : Type} [RandomSource σ]

def draw (low high : Int) : StateM σ Int := RandomSource.draw low high

def drawInt (low high : Int) : StateM σ Value := do
  return .int (Int64.ofInt (← draw low high))

/-- An integer from -1000 to 1000. -/
def int : StateM σ Value := drawInt (-1000) 1000

/-- An integer from 1 to 1000. -/
def positiveInt : StateM σ Value := drawInt 1 1000

def ints : Nat → StateM σ (List Value)
  | 0 => return []
  | n + 1 => do
    let v ← int
    let rest ← ints n
    return v :: rest

/-- So many integers from `current` on, each 1 to 10 above the one before it. -/
def climb : Nat → Int64 → StateM σ (List Value)
  | 0, _ => return []
  | n + 1, current => do
    let step ← draw 1 10
    let rest ← climb n (current + Int64.ofInt step)
    return .int current :: rest

/-- A list of growing integers that starts between -1000 and 0. -/
def increasingList (n : Nat) : StateM σ Value := do
  let start ← draw (-1000) 0
  let items ← climb n (Int64.ofInt start)
  return .list items

def letter : StateM σ Char := do
  return Char.ofNat (97 + (← draw 0 25).toNat)

def letters : Nat → StateM σ (List Char)
  | 0 => return []
  | n + 1 => do
    let c ← letter
    let rest ← letters n
    return c :: rest

/-- A text of one to eight small letters. -/
def word : StateM σ Value := do
  let length ← draw 1 8
  let cs ← letters length.toNat
  return .str (String.ofList cs)

/-- A number of either sign whose magnitude lies between 2^-10 and 512. -/
def float : StateM σ Value := do
  let sign ← draw 0 1
  let exponent ← draw 1013 1031
  let fraction ← draw 0 (Nat.pow 2 52 - 1)
  let bits := sign.toNat * Nat.pow 2 63 + exponent.toNat * Nat.pow 2 52 + fraction.toNat
  return .float ⟨UInt64.ofNat bits⟩

/-- A value of the type; an integer stands for `object`. -/
def valueOf : ValueType → StateM σ Value
  | .none => return .none
  | .bool => return .bool ((← draw 0 1) == 1)
  | .int | .object => int
  | .float => float
  | .str => word
  | .list => return .list (← ints 3)
  | .tuple => return .tuple (← ints 2)
  | .dict => do
    let key ← word
    let v ← int
    return .dict [(key, v)]

theorem length_climb (n : Nat) (current : Int64) (s : σ) :
    ((climb n current).run s).1.length = n := by
  induction n generalizing current s with
  | zero => rfl
  | succ n ih => exact congrArg (· + 1) (ih _ _)

end Generator

/-! ## Requests -/

/-- What a generator may be asked for. -/
inductive Request where
  | int
  | positiveInt
  | ints (n : Nat)
  | increasingList (n : Nat)
  | word
  | valueOf (t : ValueType)
deriving DecidableEq, Repr

namespace Request

def generate {σ : Type} [RandomSource σ] : Request → StateM σ Value
  | .int => Generator.int
  | .positiveInt => Generator.positiveInt
  | .ints n => return .list (← Generator.ints n)
  | .increasingList n => Generator.increasingList n
  | .word => Generator.word
  | .valueOf t => Generator.valueOf t

/-! ### Promised shapes -/

def isIntBetween (low high : Int64) : Value → Bool
  | .int n => decide (low ≤ n ∧ n ≤ high)
  | _ => false

/-- Whether the values are integers, each 1 to 10 above the one before it. -/
def isClimb : List Value → Bool
  | .int m :: .int n :: rest => decide (m + 1 ≤ n ∧ n ≤ m + 10) && isClimb (.int n :: rest)
  | [.int _] => true
  | [] => true
  | _ => false

/-- Whether the value has the shape that the request promises. -/
def isMet : Request → Value → Bool
  | .int, v => isIntBetween (-1000) 1000 v
  | .positiveInt, v => isIntBetween 1 1000 v
  | .ints n, .list items => items.length == n && items.all (isIntBetween (-1000) 1000)
  | .increasingList n, .list items =>
    items.length == n && items.head?.all (isIntBetween (-1000) 0) && isClimb items
  | .word, .str s =>
    decide (1 ≤ s.length ∧ s.length ≤ 8) && s.toList.all (fun c => 'a' ≤ c && c ≤ 'z')
  | .valueOf t, v => v.isInstance t
  | _, _ => false

theorem isIntBetween_drawInt {σ : Type} [RandomSource σ] (low high : Int64) (h : low ≤ high)
    (s : σ) :
    isIntBetween low high ((Generator.drawInt low.toInt high.toInt).run s).1 = true := by
  have hm := RandomSource.draw_mem s (Int64.le_iff_toInt_le.1 h)
  generalize hd : (RandomSource.draw low.toInt high.toInt s).1 = n at hm
  have hr : ((Generator.drawInt low.toInt high.toInt).run s).1 = .int (Int64.ofInt n) := by
    rw [← hd]; rfl
  have hlow := Int64.le_toInt low
  have hhigh := Int64.toInt_lt high
  have hn : (Int64.ofInt n).toInt = n := Int64.toInt_ofInt_of_le (by omega) (by omega)
  rw [hr, isIntBetween, decide_eq_true_eq, Int64.le_iff_toInt_le, Int64.le_iff_toInt_le, hn]
  exact hm

theorem isMet_int {σ : Type} [RandomSource σ] (s : σ) :
    isMet .int ((Generator.int).run s).1 = true :=
  isIntBetween_drawInt (-1000) 1000 (by decide) s

theorem isMet_positiveInt {σ : Type} [RandomSource σ] (s : σ) :
    isMet .positiveInt ((Generator.positiveInt).run s).1 = true :=
  isIntBetween_drawInt 1 1000 (by decide) s

end Request
end CallContract.Samples
