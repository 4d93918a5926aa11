/-!
# Log records

A record is what a program writes to its log: a level, a target that says which part of the program
speaks, and named fields. A field holds a text as it is, the shown form of something, a count or a
flag. Levels are ordered by severity, errors first.
-/
namespace CallContract.Console

inductive Level where
  | error | warn | info | debug | trace
deriving DecidableEq, Repr

namespace Level

/-- Levels by severity, the most severe first. -/
def rank : Level → Nat
  | .error => 0
  | .warn => 1
  | .info => 2
  | .debug => 3
  | .trace => 4

/-- Whether a log kept at level `least` holds records of level `l`. -/
def covers (least l : Level) : Bool := decide (l.rank ≤ least.rank)

end Level

/-- What a field of a record holds. -/
inductive Field where
  | text (s : String)
  /-- The shown form of something that is not plain text. -/
  | shown (s : String)
  | count (n : Int)
  | flag (b : Bool)
deriving DecidableEq, Repr

structure Record where
  level : Level
  target : String
  fields : List (String × Field)
deriving Repr

end CallContract.Console
