import CallContract.Toml.Scalar

/-!
# TOML statements

A document is a row of statements, one to a line: a header of a table, a header of one more row of
a repeated table, or a key with its value. Keys are bare, quoted, or dotted paths of such keys;
values may be arrays and inline tables of values.
-/
namespace CallContract.Toml

open Reader

/-- A path of keys and the last key of it. -/
structure Path where
  init : List String
  last : String
deriving DecidableEq, Repr

inductive Statement where
  | header (path : Path)
  | row (path : Path)
  | assign (path : Path) (v : Value)
deriving Repr

/-- Neither paths nor nested values may be this long or deep. -/
def nestingLimit : Nat := 80

/-! ## Keys -/

def isBareKeyChar (c : Char) : Bool :=
  c.isAlphanum || c == '_' || c == '-'

/-- One key of a path; a quoted key is a string of one line. -/
def simpleKey : CharReader String := do
  match ← peek? with
  | some '"' | some '\'' =>
    let quote ← next
    lineString quote
  | _ =>
    let cs ← takeWhile isBareKeyChar
    if cs.isEmpty then failure else return String.ofList cs

/-- Keys with points between them, and blanks around each. -/
def path : CharReader Path := do
  skipSpaces
  let first ← simpleKey
  skipSpaces
  let more ← many do
    if (← accept ['.']) then
      skipSpaces
      let key ← simpleKey
      skipSpaces
      return some key
    return none
  let keys := first :: more
  if nestingLimit ≤ keys.length then failure
  match more.getLast? with
  | some last => return ⟨keys.dropLast, last⟩
  | none => return ⟨[], first⟩

/-! ## Values -/

/-- A comment up to the end of its line. -/
def comment : CharReader Unit := do
  expect '#'
  let _ ← takeWhile isTextual

/-- Spaces, line ends and comments, as they may stand between the items of an array. -/
def skipBetweenItems : CharReader Unit := do
  let _ ← many (α := Unit) do
    match ← peek? with
    | some '#' =>
      comment
      if (← acceptNewline) then return some () else failure
    | some ' ' | some '\t' =>
      skipSpaces
      return some ()
    | _ => return if (← acceptNewline) then some () else none

/-- A path, an equals sign and what the value reader reads. -/
def assignment (value : CharReader Value) : CharReader (Path × Value) := do
  let p ← path
  expect '='
  skipSpaces
  return (p, ← value)

/-- A value with at most so many levels of arrays and inline tables. -/
def value : Nat → CharReader Value
  | 0 => do
    match ← peek? with
    | some '"' | some '\'' => return .string (← string)
    | _ => word
  | depth + 1 => do
    match ← peek? with
    | some '"' | some '\'' => return .string (← string)
    | some '[' =>
      expect '['
      let items ← many do
        skipBetweenItems
        if (← accept [']']) then return none
        let v ← value depth
        skipBetweenItems
        unless (← accept [',']) do
          unless (← peek?) == some ']' do failure
        return some v
      return .array items
    | some '{' =>
      expect '{'
      skipSpaces
      if (← accept ['}']) then return .table .inline []
      let first ← assignment (value depth)
      let more ← many do
        skipSpaces
        if (← accept ['}']) then return none
        expect ','
        return some (← assignment (value depth))
      let entries := (first :: more).foldlM (fun entries (p, v) =>
        Entries.insert p.last v p.init entries) ([] : Entries)
      match entries with
      | some entries => return .table .inline entries
      | none => failure
    | _ => word

/-! ## Statements -/

/-- The rest of a line: blanks, a comment, and the line end or the end of the document. -/
def lineEnd : CharReader Unit := do
  skipSpaces
  if (← peek?) == some '#' then comment
  unless (← acceptNewline) do
    unless (← get).isEmpty do failure

/-- The next statement, past lines without one; there is none at the end of the document. -/
def statement : CharReader (Option Statement) := do
  let _ ← many (α := Unit) do
    skipSpaces
    match ← peek? with
    | some '#' | some '\n' | some '\r' =>
      lineEnd
      return some ()
    | _ => return none
  if (← get).isEmpty then return none
  if (← accept ['[', '[']) then
    let p ← path
    unless (← accept [']', ']']) do failure
    lineEnd
    return some (.row p)
  if (← accept ['[']) then
    let p ← path
    expect ']'
    lineEnd
    return some (.header p)
  let (p, v) ← assignment (value (nestingLimit - 1))
  lineEnd
  return some (.assign p v)

end CallContract.Toml
