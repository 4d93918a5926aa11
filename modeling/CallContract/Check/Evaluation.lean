import CallContract.Check.Basic
import CallContract.Value.Order
import CallContract.Value.Printer
import CallContract.Value.Sequence

/-!
# Evaluation of checks

A check passes, fails, fails at an element, or does not apply: the value lacks an operation that
the check needs. An element that fails stops the walk over the elements, and so does one that the
inner check does not apply to.

**Results.**
* `firstFailure_eq_none`: no element fails exactly when every element passes.
* `evaluate_eachSatisfies_eq_pass`: hence what it takes to satisfy a check element by element.
-/
namespace CallContract.Check

/-! ## Verdicts -/

inductive Verdict where
  | pass
  | fail
  /-- The element at this position is the first that fails. -/
  | failAt (index : Nat) (element : Value)
deriving Repr

def Verdict.isPass : Verdict → Bool
  | .pass => true
  | _ => false

/-- The operations on a value that a check may need. -/
inductive Operation where
  | length | iteration | stepOrder | zeroOrder
deriving DecidableEq, Repr

def Operation.text : Operation → String
  | .length => "len(x)"
  | .iteration => "for elem in x"
  | .stepOrder => "x[i+1] > x[i]"
  | .zeroOrder => "x > 0"

/-- A check that does not apply: the value lacks the operation. -/
structure Inapplicable where
  operation : Operation
  value : Value
deriving Repr

/-- The sentence that reports an operation's failure on a value. -/
def Inapplicable.message (e : Inapplicable) : String :=
  "operation `" ++ e.operation.text ++ "` failed for this value: " ++ e.value.text

/-! ## Evaluation -/

/-- Whether each item is greater than the one before it; no answer at the first pair that is not
if it has no order. -/
def increasing? : List Value → Option Bool
  | v :: w :: rest =>
    match w.gt? v with
    | some true => increasing? (w :: rest)
    | answer => answer
  | _ => some true

/-- The first element on which the test does not pass, with its position counted from `index`. -/
def firstFailure (test : Value → Except Inapplicable Verdict) :
    Nat → List Value → Except Inapplicable (Option (Nat × Value))
  | _, [] => .ok none
  | index, v :: rest =>
    match test v with
    | .error e => .error e
    | .ok .pass => firstFailure test (index + 1) rest
    | .ok _ => .ok (some (index, v))

def ofBool (passed : Bool) : Verdict := if passed then .pass else .fail

/-- The items compared in a test for growth: at least two of them, accessible by position. -/
def evaluateIncreasing (v : Value) : Except Inapplicable Verdict :=
  match v.length?, v.elements? with
  | some n, some items =>
    if n ≤ 1 then .ok .pass
    else if v.isIndexable then
      match increasing? items with
      | some passed => .ok (ofBool passed)
      | none => .error ⟨.stepOrder, v⟩
    else .error ⟨.stepOrder, v⟩
  | _, _ => .error ⟨.length, v⟩

def evaluate : Check → Value → Except Inapplicable Verdict
  | .typeEquals declared, v => .ok (ofBool (v.isInstance declared))
  | .isSequenceShaped _, v => .ok (ofBool v.sequence?.isSome)
  | .nonEmpty, v =>
    match v.length? with
    | some n => .ok (ofBool (0 < n))
    | none => .error ⟨.length, v⟩
  | .monotonicIncreasing, v => evaluateIncreasing v
  | .positive, v =>
    match v.gt? (.int 0) with
    | some passed => .ok (ofBool passed)
    | none => .error ⟨.zeroOrder, v⟩
  | .eachSatisfies inner, v =>
    match v.elements? with
    | some items =>
      match firstFailure (evaluate inner) 0 items with
      | .ok none => .ok .pass
      | .ok (some (index, element)) => .ok (.failAt index element)
      | .error e => .error e
    | none => .error ⟨.iteration, v⟩

theorem firstFailure_eq_none {test : Value → Except Inapplicable Verdict} (index : Nat)
    {items : List Value} :
    firstFailure test index items = .ok none ↔ ∀ v ∈ items, test v = .ok .pass := by
  induction items generalizing index with
  | nil => simp [firstFailure]
  | cons v rest ih =>
    simp only [firstFailure, List.mem_cons, forall_eq_or_imp]
    split
    next h => simp [h]
    next h => simp [h, ih]
    next h h' => simp only [h', Except.ok.injEq, reduceCtorEq, false_iff, not_and]; simp_all

theorem evaluate_eachSatisfies_eq_pass {c : Check} {v : Value} :
    evaluate (.eachSatisfies c) v = .ok .pass ↔
      ∃ items, v.elements? = some items ∧ ∀ w ∈ items, evaluate c w = .ok .pass := by
  rw [evaluate]
  cases v.elements? with
  | none => simp
  | some items =>
    simp only [Option.some.injEq, exists_eq_left', ← firstFailure_eq_none 0]
    split <;> simp_all

end CallContract.Check
