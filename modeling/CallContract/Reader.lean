/-!
# Readers

A reader takes something off the front of its input and answers what it read, or fails. The input
is a state that a reader leaves shorter; repetition asks each round to have done so, and
therefore ends.
-/
namespace CallContract

/-- Reads from the state `σ` and leaves what is behind. -/
abbrev Reader (σ α : Type) : Type := StateT σ Option α

namespace Reader

variable {σ τ α : Type}

/-- What the rounds of `step` answer, up to the first that answers nothing. A round that answers
something has to leave less than it found. -/
def gather (remaining : σ → Nat) (step : Reader σ (Option α)) (s : σ) : Option (List α × σ) :=
  match step s with
  | none => none
  | some (none, rest) => some ([], rest)
  | some (some a, rest) =>
    if remaining rest < remaining s then
      (gather remaining step rest).map fun (as, last) => (a :: as, last)
    else none
termination_by remaining s

/-! ## Lists as input -/

def peek? : Reader (List τ) (Option τ) := return (← get).head?

def next : Reader (List τ) τ
  | [] => none
  | t :: rest => some (t, rest)

/-- Reads exactly this item. -/
def expect [BEq τ] (t : τ) : Reader (List τ) Unit := do
  unless (← next) == t do failure

/-- The longest run of items that pass the test. -/
def takeWhile (p : τ → Bool) : Reader (List τ) (List τ) := fun s =>
  some (s.takeWhile p, s.dropWhile p)

/-- Whether the input begins with these items, which are then read. -/
def accept [BEq τ] (ts : List τ) : Reader (List τ) Bool := fun s =>
  if ts.isPrefixOf s then some (true, s.drop ts.length) else some (false, s)

/-- What the rounds answer that are read from a list. -/
def many (step : Reader (List τ) (Option α)) : Reader (List τ) (List α) :=
  gather List.length step

end Reader
end CallContract
