import CallContract.Text.Unprintable

/-!
# Quoted text

Text between double quotes. A double quote and a backslash are escaped by a backslash, NUL, tab,
line feed and carriage return by a letter, every other character without a glyph of its own by its
code point in braces; all the rest, the single quote included, stands raw.

**Results.**
* `toList_quoted`: a quoted text is its escaped characters between two double quotes.
-/
namespace CallContract.Text

/-- One character as it stands in quoted text. -/
def escape (c : Char) : List Char :=
  if c = '\x00' then ['\\', '0']
  else if c = '\t' then ['\\', 't']
  else if c = '\n' then ['\\', 'n']
  else if c = '\r' then ['\\', 'r']
  else if c = '"' then ['\\', '"']
  else if c = '\\' then ['\\', '\\']
  else if isUnprintable c then ['\\', 'u', '\x7b'] ++ Nat.toDigits 16 c.toNat ++ ['\x7d']
  else [c]

/-- The text between double quotes, with everything escaped that does not stand raw. -/
def quoted (s : String) : String := String.ofList ('"' :: s.toList.flatMap escape ++ ['"'])

@[simp] theorem toList_quoted (s : String) :
    (quoted s).toList = '"' :: s.toList.flatMap escape ++ ['"'] := by
  simp [quoted]

end CallContract.Text
