import CallContract.Reader

/-!
# Places in a YAML text

A cursor is what is left of a text together with where it stands: how many bytes were read, the
line and the column, on which the meaning of the text depends, and whether a key may begin. Columns
are counted in characters, bytes in UTF-8.

**Results.**
* `remaining_lineEnd`: a line end takes at least one character.
-/
namespace CallContract.Yaml

/-! ## Characters -/

def isBlank (c : Char) : Bool := c == ' ' || c == '\t'

/-- Whether the character ends a line. -/
def isBreak (c : Char) : Bool :=
  c == '\n' || c == '\r' || c == '\u0085' || c == '\u2028' || c == '\u2029'

/-- Whether the character may stand in a text at all. -/
def isAllowed (c : Char) : Bool :=
  let n := c.toNat
  n == 0x9 || n == 0xa || n == 0xd || (0x20 ≤ n && n ≤ 0x7e) || n == 0x85 ||
    (0xa0 ≤ n && n ≤ 0xfffd) || 0x10000 ≤ n

/-- Whether a text ends or goes on with a blank or a line end. -/
def isGapOrEnd : List Char → Bool
  | [] => true
  | c :: _ => isBlank c || isBreak c

/-- How many bytes the characters take in UTF-8. -/
def byteLength (cs : List Char) : Nat := cs.foldl (fun n c => n + c.utf8Size) 0

/-! ## Cursors -/

structure Cursor where
  rest : List Char
  /-- How many bytes were read. -/
  offset : Nat
  line : Nat
  column : Nat
  /-- Whether a key without a mark of its own may begin. -/
  keyMayBegin : Bool
deriving Repr

namespace Cursor

def start (cs : List Char) : Cursor := ⟨cs, 0, 0, 0, true⟩

def remaining (c : Cursor) : Nat := c.rest.length

/-- The cursor behind so many characters of the line. -/
def skip (c : Cursor) (n : Nat) : Cursor :=
  { c with
    rest := c.rest.drop n
    offset := c.offset + byteLength (c.rest.take n)
    column := c.column + n }

/-- The cursor behind the characters of the line that pass the test. -/
def skipWhile (c : Cursor) (p : Char → Bool) : Cursor := c.skip (c.rest.takeWhile p).length

/-- The line end at the cursor, a line feed unless it is a separator of its own, and the cursor
behind it. -/
def lineEnd? (c : Cursor) : Option (Char × Cursor) :=
  match c.rest with
  | '\r' :: '\n' :: rest => some ('\n', next rest 2)
  | b :: rest =>
    if b == '\u2028' || b == '\u2029' then some (b, next rest b.utf8Size)
    else if isBreak b then some ('\n', next rest b.utf8Size)
    else none
  | [] => none
where
  next (rest : List Char) (n : Nat) : Cursor :=
    { c with rest := rest, offset := c.offset + n, line := c.line + 1, column := 0 }

/-- Whether the text goes on, at the start of a line, with a mark of three such characters. -/
def atMark (c : Cursor) (mark : Char) : Bool :=
  c.column == 0 && (List.replicate 3 mark).isPrefixOf c.rest && isGapOrEnd (c.rest.drop 3)

/-- Whether the text goes on with the mark of a document's start or end. -/
def atDocumentMark (c : Cursor) : Bool := c.atMark '-' || c.atMark '.'

theorem remaining_lineEnd {c next : Cursor} {b : Char} (h : c.lineEnd? = some (b, next)) :
    next.remaining < c.remaining := by
  unfold lineEnd? at h
  split at h
  next hr => cases h; simp only [remaining, lineEnd?.next, hr, List.length_cons]; omega
  next hr =>
    split at h
    · cases h; simp [remaining, lineEnd?.next, hr]
    · split at h
      · cases h; simp [remaining, lineEnd?.next, hr]
      · cases h
  next => cases h

end Cursor

/-- Reads from a cursor. -/
abbrev CursorReader (α : Type) : Type := Reader Cursor α

end CallContract.Yaml
