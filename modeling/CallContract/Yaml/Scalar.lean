import CallContract.Yaml.Cursor

/-!
# YAML scalars

Plain and quoted scalars, which may go on over several lines. Between two words, blanks stay as
they are; a single line end becomes a space, and of several all but the first stay.
-/
namespace CallContract.Yaml

/-! ## Gaps between words -/

/-- What stands between two words of a scalar: blanks before the first line end, and line ends. -/
structure Gap where
  blanks : List Char
  breaks : List Char
deriving Repr

namespace Gap

def text (g : Gap) : List Char :=
  match g.breaks with
  | [] => g.blanks
  | ['\n'] => [' ']
  | '\n' :: more => more
  | breaks => breaks

/-- Reads a line end with the blanks of the line behind it, if there is one. Left of the column
`indent` no tab may stand among these blanks. -/
def brokenLine (indent : Nat) : CursorReader (Option Char) := fun c =>
  match c.lineEnd? with
  | none => some (none, c)
  | some (b, next) =>
    let blanks := next.rest.takeWhile isBlank
    if (blanks.take indent).contains '\t' then none else some (some b, next.skip blanks.length)

/-- Reads the gap at the cursor. -/
def read (indent : Nat) : CursorReader Gap := do
  let c ← get
  let blanks := c.rest.takeWhile isBlank
  set (c.skip blanks.length)
  return ⟨blanks, ← Reader.gather Cursor.remaining (brokenLine indent)⟩

end Gap

/-! ## Plain scalars -/

/-- Whether the character is a mark of flow collections. -/
def isFlowMark (c : Char) : Bool :=
  c == ',' || c == '[' || c == ']' || c == '\x7b' || c == '\x7d'

/-- The characters of a plain word: up to a blank or line end, a colon before one, or, inside a
flow collection, one of its marks. There a colon may not stand before such a mark. -/
def plainWord? (inFlow : Bool) : List Char → Option (List Char)
  | [] => some []
  | c :: rest =>
    if isBlank c || isBreak c then some []
    else if inFlow && c == ':' && rest.head?.any (fun d => isFlowMark d || d == '?') then none
    else if c == ':' && isGapOrEnd rest then some []
    else if inFlow && isFlowMark c then some []
    else (plainWord? inFlow rest).map (c :: ·)

def plainWord (inFlow : Bool) : CursorReader (List Char) := fun c =>
  (plainWord? inFlow c.rest).map fun cs => (cs, c.skip cs.length)

/-- Reads a plain scalar. Outside flow collections, lines that go on with it begin at the column
`indent` or behind. Behind a line end that does not go on with it, a key may begin. -/
def plainScalar (inFlow : Bool) (indent : Nat) : CursorReader String := do
  let first ← plainWord inFlow
  let more ← Reader.gather Cursor.remaining do
    let g ← Gap.read indent
    let c ← get
    let broken := !g.breaks.isEmpty
    let stops := (g.blanks.isEmpty && !broken) || (broken && !inFlow && c.column < indent) ||
      c.atDocumentMark || c.rest.head? == some '#'
    let cs ← if stops then pure [] else plainWord inFlow
    if cs.isEmpty then
      if broken then set { c with keyMayBegin := true }
      return none
    return some (g.text ++ cs)
  return String.ofList (first ++ more.flatten)

/-! ## Quoted scalars -/

/-- Reads a hexadecimal number of so many digits. -/
def hexNumber : Nat → CursorReader Nat
  | 0 => return 0
  | n + 1 => do
    let c ← get
    let digit ← match c.rest with
      | d :: _ =>
        if d.isDigit then pure (d.toNat - '0'.toNat)
        else if 'a' ≤ d ∧ d ≤ 'f' then pure (d.toNat - 'a'.toNat + 10)
        else if 'A' ≤ d ∧ d ≤ 'F' then pure (d.toNat - 'A'.toNat + 10)
        else failure
      | [] => failure
    set (c.skip 1)
    return digit * Nat.pow 16 n + (← hexNumber n)

/-- The character that a letter stands for behind a backslash. -/
def escapeLetters : List (Char × Char) := [
  ('0', '\x00'), ('a', '\x07'), ('b', '\x08'), ('t', '\t'), ('\t', '\t'), ('n', '\n'),
  ('v', '\x0b'), ('f', '\x0c'), ('r', '\r'), ('e', '\x1b'), (' ', ' '), ('"', '"'), ('/', '/'),
  ('\\', '\\'), ('N', '\u0085'), ('_', '\u00a0'), ('L', '\u2028'), ('P', '\u2029')]

/-- How many hexadecimal digits follow a letter behind a backslash. -/
def escapeDigits : List (Char × Nat) := [('x', 2), ('u', 4), ('U', 8)]

/-- Reads what an escape stands for, its backslash read before. -/
def escaped : CursorReader (List Char) := do
  let c ← get
  match c.lineEnd? with
  | some (_, next) =>
    set next
    return (← Gap.read 0).breaks
  | none =>
    let letter ← c.rest.head?
    set (c.skip 1)
    match escapeLetters.lookup letter, escapeDigits.lookup letter with
    | some meaning, _ => return [meaning]
    | none, some digits =>
      let code ← hexNumber digits
      if code.isValidChar then return [Char.ofNat code] else failure
    | none, none => failure

/-- Reads a quoted scalar behind its first quote. Between double quotes there are escapes; between
single ones, a quote is written twice. -/
def quotedScalar (quote : Char) : CursorReader String := do
  let parts ← Reader.gather Cursor.remaining do
    let c ← get
    if c.atDocumentMark then failure
    match c.rest with
    | [] => failure
    | b :: rest =>
      if isBlank b || isBreak b then return some (← Gap.read 0).text
      set (c.skip 1)
      if b == quote then
        if quote == '\'' && rest.head? == some quote then
          set (c.skip 2)
          return some [quote]
        return none
      if b == '\\' && quote == '"' then return some (← escaped)
      return some [b]
  return String.ofList parts.flatten

end CallContract.Yaml
