import CallContract.Yaml.Scalar

/-!
# YAML tokens

A YAML text as a row of tokens: its scalars, the marks of documents, collections and entries that
it shows, and those that only its indentation tells. A key in front of a colon needs no mark; it
stands on one line and has at most 1024 bytes, and where the indentation asks for a key its colon
has to follow. A byte order mark may begin any line, where it takes a column. Anchors, aliases,
tags, directives and block scalars are not read.

**Results.**
* `ofText?_of_not_allowed`: a text with a forbidden character has no tokens.
-/
namespace CallContract.Yaml

inductive Token where
  | documentStart | documentEnd
  /-- The indentation begins a block collection, or ends one. -/
  | sequenceStart | mappingStart | blockEnd
  | flowSequenceStart | flowSequenceEnd | flowMappingStart | flowMappingEnd
  | blockEntry | flowEntry | key | value
  | scalar (isPlain : Bool) (text : String)
deriving DecidableEq, Repr

/-- A place where a key without a mark may have begun. -/
structure PossibleKey where
  /-- How many tokens stand before it. -/
  position : Nat
  start : Cursor
  /-- Whether the indentation asks for a key there. -/
  isRequired : Bool
deriving Repr

/-- A text read in part. -/
structure Tokenizer where
  cursor : Cursor
  tokens : List Token
  /-- The columns of the open block collections, the innermost first. -/
  indents : List Nat
  /-- For each open flow collection, the innermost first, and for all around them, the key that may
  have begun there. -/
  keys : List (Option PossibleKey)
deriving Repr

namespace Tokenizer

abbrev Step (α : Type) : Type := Reader Tokenizer α

def start (cs : List Char) : Tokenizer := ⟨.start cs, [], [], [none]⟩

def inFlow (t : Tokenizer) : Bool := decide (1 < t.keys.length)

/-- Reads at the cursor. -/
def onCursor {α : Type} (r : CursorReader α) : Step α := fun t =>
  (r t.cursor).map fun (a, c) => (a, { t with cursor := c })

def skip (n : Nat) : Step Unit := modify fun t => { t with cursor := t.cursor.skip n }

def allowKeys (allowed : Bool) : Step Unit :=
  modify fun t => { t with cursor := { t.cursor with keyMayBegin := allowed } }

def emit (token : Token) : Step Unit := modify fun t => { t with tokens := t.tokens ++ [token] }

/-! ## Indentation -/

/-- Begins a block collection at a column to the right of all open ones; its token comes before
the one at `position`. -/
def openBlock (column position : Nat) (token : Token) : Step Unit := modify fun t =>
  if !t.inFlow && t.indents.head?.all (· < column) then
    { t with indents := column :: t.indents, tokens := t.tokens.insertIdx position token }
  else t

/-- Ends the block collections that pass the test, from the innermost on. -/
def closeBlocks (ends : Nat → Bool) : Step Unit := modify fun t =>
  if t.inFlow then t
  else
    let closed := t.indents.takeWhile ends
    { t with
      indents := t.indents.drop closed.length
      tokens := t.tokens ++ List.replicate closed.length .blockEnd }

/-! ## Possible keys -/

def setKey (k : Option PossibleKey) : Step Unit :=
  modify fun t => { t with keys := k :: t.keys.tail }

def currentKey (t : Tokenizer) : Option PossibleKey := t.keys.head?.join

/-- Gives up the key that may have begun, which the indentation must not ask for. -/
def dropKey : Step Unit := do
  if ((← get).currentKey).any (·.isRequired) then failure
  setKey none

/-- Notes that a key may begin at the cursor. -/
def noteKey : Step Unit := do
  let t ← get
  if t.cursor.keyMayBegin then
    dropKey
    setKey (some ⟨t.tokens.length, t.cursor,
      !t.inFlow && t.indents.head? == some t.cursor.column⟩)

/-- Whether the cursor is too far from the start of a key. -/
def isPast (c : Cursor) (k : PossibleKey) : Bool :=
  decide (k.start.line < c.line ∨ k.start.offset + 1024 < c.offset)

/-- Gives up the keys that began too far back. -/
def dropPastKeys : Step Unit := do
  let t ← get
  if t.keys.any fun key => key.any fun k => isPast t.cursor k && k.isRequired then failure
  modify fun t => { t with keys := t.keys.map fun key => key.filter (!isPast t.cursor ·) }

/-! ## Tokens -/

/-- Skips blanks, comments and line ends, and a byte order mark at the start of a line. A tab may
not stand where a block key may begin. -/
def skipToToken : Step Unit := do
  let inFlow := (← get).inFlow
  let _ ← onCursor <| Reader.gather Cursor.remaining fun c =>
    let c := if c.column == 0 && c.rest.head? == some '\ufeff' then c.skip 1 else c
    let c := c.skipWhile fun b => b == ' ' || (b == '\t' && (inFlow || !c.keyMayBegin))
    let c := if c.rest.head? == some '#' then c.skipWhile (!isBreak ·) else c
    match c.lineEnd? with
    | some (_, next) =>
      some (some (), if inFlow then next else { next with keyMayBegin := true })
    | none => some (none, c)

def documentMark (token : Token) : Step Unit := do
  closeBlocks fun _ => true
  dropKey
  allowKeys false
  skip 3
  emit token

def flowStart (token : Token) : Step Unit := do
  noteKey
  modify fun t => { t with keys := none :: t.keys }
  allowKeys true
  skip 1
  emit token

def flowEnd (token : Token) : Step Unit := do
  dropKey
  modify fun t => if t.inFlow then { t with keys := t.keys.tail } else t
  allowKeys false
  skip 1
  emit token

def flowEntry : Step Unit := do
  dropKey
  allowKeys true
  skip 1
  emit .flowEntry

/-- A mark that begins an entry or a key, and outside flow collections may begin a block. -/
def entryMark (token block : Token) (keysBehind : Bool) : Step Unit := do
  let t ← get
  unless t.inFlow || t.cursor.keyMayBegin do failure
  openBlock t.cursor.column t.tokens.length block
  dropKey
  allowKeys keysBehind
  skip 1
  emit token

/-- A colon: behind a key that may have begun, or with no key before it. -/
def valueMark : Step Unit := do
  let t ← get
  match t.currentKey with
  | some k =>
    modify fun t => { t with tokens := t.tokens.insertIdx k.position .key }
    openBlock k.start.column k.position .mappingStart
    setKey none
    allowKeys false
  | none =>
    unless t.inFlow || t.cursor.keyMayBegin do failure
    openBlock t.cursor.column t.tokens.length .mappingStart
    allowKeys !t.inFlow
  skip 1
  emit .value

def quoted (quote : Char) : Step Unit := do
  noteKey
  allowKeys false
  skip 1
  emit (.scalar false (← onCursor (quotedScalar quote)))

def plain : Step Unit := do
  noteKey
  allowKeys false
  let t ← get
  let indent := (t.indents.head?.map (· + 1)).getD 0
  emit (.scalar true (← onCursor (plainScalar t.inFlow indent)))

/-- Whether a plain scalar may begin with these characters. -/
def beginsPlain (inFlow : Bool) : List Char → Bool
  | [] => false
  | c :: rest =>
    let isGap := isGapOrEnd rest
    if c == '-' then !rest.head?.any isBlank
    else if c == '?' || c == ':' then !inFlow && !isGap
    else !("#&*!|>%@`\"'".toList.contains c || isFlowMark c || isBlank c || isBreak c)

/-- The next token, and those that come before it; nothing at the end of the text. -/
def next : Step (Option Unit) := do
  skipToToken
  dropPastKeys
  let t ← get
  closeBlocks (t.cursor.column < ·)
  let inFlow := t.inFlow
  match t.cursor.rest with
  | [] =>
    closeBlocks fun _ => true
    dropKey
    return none
  | c :: rest =>
    let isGap := isGapOrEnd rest
    if t.cursor.atMark '-' then documentMark .documentStart
    else if t.cursor.atMark '.' then documentMark .documentEnd
    else if c == '%' && t.cursor.column == 0 then failure
    else if c == '[' then flowStart .flowSequenceStart
    else if c == '\x7b' then flowStart .flowMappingStart
    else if c == ']' then flowEnd .flowSequenceEnd
    else if c == '\x7d' then flowEnd .flowMappingEnd
    else if c == ',' then flowEntry
    else if c == '-' && isGap then entryMark .blockEntry .sequenceStart true
    else if c == '?' && (inFlow || isGap) then entryMark .key .mappingStart !inFlow
    else if c == ':' && (inFlow || isGap) then valueMark
    else if c == '"' || c == '\'' then quoted c
    else if beginsPlain inFlow t.cursor.rest then plain
    else failure
    return some ()

end Tokenizer

/-- The tokens of a text. -/
def Token.ofText? (text : String) : Option (List Token) :=
  if text.toList.all isAllowed then
    (Reader.gather (fun t => t.cursor.remaining) Tokenizer.next (.start text.toList)).map
      (·.2.tokens)
  else none

theorem Token.ofText?_of_not_allowed {cs : List Char} {c : Char} (hc : c ∈ cs)
    (h : isAllowed c = false) : Token.ofText? (String.ofList cs) = none := by
  have hall : cs.all isAllowed = false := List.all_eq_false.2 ⟨c, hc, by simp [h]⟩
  rw [Token.ofText?, String.toList_ofList, if_neg (by simp [hall])]

end CallContract.Yaml
