import CallContract.Console.Record

/-!
# Console entries

What the console keeps of a record, and the styled text it writes for it. Of each field the
last value of the right form counts; a shown form loses one pair of double quotes around it, if
both are there. Compiled functions, violations and rejected calls are written at every level,
single checks at the finest level only, and nothing else is written at all.

**Results.**
* `unquote_of_ends`: one pair of quotes is taken off.
-/
namespace CallContract.Console

/-! ## Styles -/

/-- The colours of entries. -/
inductive Colour where
  | red | green | cyan | white | brightBlack | brightRed | brightGreen | brightYellow
  | brightMagenta
deriving DecidableEq, Repr

def Colour.code : Colour → Nat
  | .red => 31
  | .green => 32
  | .cyan => 36
  | .white => 37
  | .brightBlack => 90
  | .brightRed => 91
  | .brightGreen => 92
  | .brightYellow => 93
  | .brightMagenta => 95

/-- Text in a colour, back to the default colour behind it. -/
def Colour.paint (c : Colour) (s : String) : String :=
  "\x1b[" ++ toString c.code ++ "m" ++ s ++ "\x1b[39m"

def bold (s : String) : String := "\x1b[1m" ++ s ++ "\x1b[0m"

/-! ## Entries -/

/-- The fields of a record that the console writes. -/
structure Entry where
  event : Option String
  function : Option String
  param : Option String
  check : Option String
  kind : Option String
  error : Option String
  params : Option Nat
  checks : Option Nat
  passed : Option Bool
deriving DecidableEq, Repr

namespace Entry

def empty : Entry := ⟨none, none, none, none, none, none, none, none, none⟩

/-- A text less the double quotes around it, if it has one at each end. -/
def unquote (s : String) : String :=
  match s.toList with
  | '"' :: rest => if rest.getLast? = some '"' then String.ofList rest.dropLast else s
  | _ => s

theorem unquote_of_ends (cs : List Char) :
    unquote (String.ofList ('"' :: cs ++ ['"'])) = String.ofList cs := by
  simp [unquote]

def keepText (e : Entry) (name s : String) : Entry :=
  match name with
  | "event" => { e with event := some s }
  | "function" => { e with function := some s }
  | "param" => { e with param := some s }
  | "check" => { e with check := some s }
  | "kind" => { e with kind := some s }
  | "error" => { e with error := some s }
  | _ => e

/-- The entry with one more field; a field of the wrong form, or of another name, is passed over. -/
def keep (e : Entry) (name : String) : Field → Entry
  | .text s => e.keepText name s
  | .shown s => e.keepText name (unquote s)
  | .count n =>
    match name with
    | "params" => { e with params := some n.toNat }
    | "checks" => { e with checks := some n.toNat }
    | _ => e
  | .flag b =>
    match name with
    | "passed" => { e with passed := some b }
    | _ => e

def ofFields (fields : List (String × Field)) : Entry :=
  fields.foldl (fun e (name, field) => e.keep name field) empty

/-! ## Texts -/

def functionText (e : Entry) : String := bold (Colour.white.paint (e.function.getD "<unknown>"))

/-- The mark before a failure: a warning sign at the level of warnings, else a cross. -/
def failureMark (l : Level) : String :=
  if l = .warn then bold (Colour.brightYellow.paint "⚠") else bold (Colour.brightRed.paint "✘")

def compileText (e : Entry) : String :=
  bold (Colour.brightGreen.paint "✔") ++ " compiled " ++ e.functionText ++ " │ " ++
    Colour.brightYellow.paint (toString (e.params.getD 0)) ++ " params │ " ++
    Colour.brightYellow.paint (toString (e.checks.getD 0)) ++ " checks"

def violationText (e : Entry) (l : Level) : String :=
  failureMark l ++ " " ++ e.functionText ++ " │ " ++
    Colour.brightMagenta.paint (e.kind.getD "CallArgCheckError") ++
    (match e.param with
      | some param => " │ param " ++ Colour.cyan.paint param
      | none => "") ++
    (match e.error with
      | some error => "\n    " ++ Colour.brightBlack.paint error
      | none => "")

def rejectionText (e : Entry) (l : Level) : String :=
  failureMark l ++ " " ++ e.functionText ++ " │ " ++ Colour.brightRed.paint "binding rejected" ++
    " │ " ++ Colour.brightBlack.paint (e.error.getD "")

def checkText (e : Entry) : String :=
  "  " ++ (if e.passed = some true then Colour.green.paint "✓" else Colour.red.paint "✗") ++ " " ++
    Colour.brightBlack.paint (e.param.getD "") ++ " " ++ e.check.getD ""

/-- The text written for an entry at a level, if there is any. -/
def text? (e : Entry) (l : Level) : Option String :=
  match e.event with
  | some "compile" => some e.compileText
  | some "violation" => some (e.violationText l)
  | some "bind_rejected" => some (e.rejectionText l)
  | some "check" => if l = .trace then some e.checkText else none
  | _ => none

end Entry
end CallContract.Console
