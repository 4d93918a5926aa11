/-!
# Blank text

White space is the property `White_Space` of Unicode, 25 characters in ten runs; a text is blank
when it holds nothing else. Zero-width characters and the byte order mark are not white space.

**Results.**
* `isWhiteSpace_of_isWhitespace`: the four white-space characters that core knows are among them.
-/
namespace CallContract.Text

/-- First and last code points of the runs of white space. -/
def whiteSpace : List (Nat × Nat) := [
  (0x9, 0xd), (0x20, 0x20), (0x85, 0x85), (0xa0, 0xa0), (0x1680, 0x1680), (0x2000, 0x200a),
  (0x2028, 0x2029), (0x202f, 0x202f), (0x205f, 0x205f), (0x3000, 0x3000)]

def isWhiteSpace (c : Char) : Bool :=
  whiteSpace.any fun run => run.1 ≤ c.toNat && c.toNat ≤ run.2

def isBlank (s : String) : Bool := s.toList.all isWhiteSpace

theorem isWhiteSpace_of_isWhitespace {c : Char} (h : c.isWhitespace = true) :
    isWhiteSpace c = true := by
  simp only [Char.isWhitespace, Bool.or_eq_true, decide_eq_true_eq] at h
  rcases h with ((rfl | rfl) | rfl) | rfl <;> decide

end CallContract.Text
