import CallContract.Console.Entry

/-!
# The console log

Which records reach the console, and the lines it writes for them. Only records whose target
begins with `argcheck` are written; a log is switched off, kept up to a level, or left at its
default, which is the level of information and the same targets.

**Results.**
* `written_append`: the log of two runs is one log behind the other.
-/
namespace CallContract.Console

/-- Which records a log keeps. -/
inductive Filter where
  | off
  | upTo (least : Level)
  /-- Records up to the level of information from the targets that the console writes. -/
  | byDefault
deriving DecidableEq, Repr

/-- Whether the console writes records of this target; case counts. -/
def isShownTarget (target : String) : Bool := "argcheck".toList.isPrefixOf target.toList

def Filter.accepts : Filter → Record → Bool
  | .off, _ => false
  | .upTo least, r => least.covers r.level
  | .byDefault, r => Level.info.covers r.level && isShownTarget r.target

/-- The lines written for one record, each with its line end. -/
def Filter.line (f : Filter) (r : Record) : String :=
  if f.accepts r && isShownTarget r.target then
    match (Entry.ofFields r.fields).text? r.level with
    | some text => text ++ "\n"
    | none => ""
  else ""

/-- All that is written for the records. -/
def Filter.written (f : Filter) : List Record → String
  | [] => ""
  | r :: records => f.line r ++ f.written records

theorem Filter.written_append (f : Filter) (rs ss : List Record) :
    f.written (rs ++ ss) = f.written rs ++ f.written ss := by
  induction rs with
  | nil => simp [written]
  | cons r rs ih => simp [written, ih, String.append_assoc]

end CallContract.Console
