import CallContract.Decimal.Basic
import CallContract.Reader
import CallContract.Toml.Basic

/-!
# TOML scalars

The four kinds of strings, and the words that stand for numbers, truth values, dates and times. A
word is the longest run of characters that such values are made of; what the word as a whole
says is its value.

**Results.**
* `daysIn_le`: no month is longer than 31 days.
-/
namespace CallContract.Toml

open Reader

/-- Reads characters. -/
abbrev CharReader (α : Type) : Type := Reader (List Char) α

/-! ## Characters -/

def isSpace (c : Char) : Bool := c == ' ' || c == '\t'

/-- Whether the character may stand in comments and strings: no control character but the tab. -/
def isTextual (c : Char) : Bool := c == '\t' || (32 ≤ c.toNat && c.toNat != 127)

def skipSpaces : CharReader Unit := do
  let _ ← takeWhile isSpace

/-- Reads one line end, if there is one. -/
def acceptNewline : CharReader Bool := fun s =>
  match s with
  | '\n' :: rest | '\r' :: '\n' :: rest => some (true, rest)
  | _ => some (false, s)

/-! ## Strings -/

/-- A hexadecimal number of so many digits. -/
def hexNumber : Nat → CharReader Nat
  | 0 => return 0
  | n + 1 => do
    let c ← next
    let digit ←
      if c.isDigit then pure (c.toNat - '0'.toNat)
      else if 'a' ≤ c ∧ c ≤ 'f' then pure (c.toNat - 'a'.toNat + 10)
      else if 'A' ≤ c ∧ c ≤ 'F' then pure (c.toNat - 'A'.toNat + 10)
      else failure
    return digit * Nat.pow 16 n + (← hexNumber n)

/-- The character of a code point, which surrogates are not. -/
def charOf (code : Nat) : CharReader Char :=
  if code.isValidChar then return Char.ofNat code else failure

/-- The character that an escape stands for, its backslash read before. -/
def escaped : CharReader Char := do
  match ← next with
  | 'b' => return '\x08'
  | 't' => return '\t'
  | 'n' => return '\n'
  | 'f' => return '\x0c'
  | 'r' => return '\r'
  | '"' => return '"'
  | '\\' => return '\\'
  | 'u' => charOf (← hexNumber 4)
  | 'U' => charOf (← hexNumber 8)
  | _ => failure

/-- A string of one line behind its opening quote; only double quotes have escapes. -/
def lineString (quote : Char) : CharReader String := do
  let cs ← many do
    let c ← next
    if c == quote then return none
    if c == '\\' && quote == '"' then return some (← escaped)
    if isTextual c then return some c
    failure
  return String.ofList cs

/-- A string of many lines behind its three opening quotes. A line end right behind them is left
out. Up to two quotes may stand before the three closing ones. -/
def blockString (quote : Char) : CharReader String := do
  let _ ← acceptNewline
  let parts ← many do
    if (← accept (List.replicate 3 quote)) then return none
    if (← acceptNewline) then return some ['\n']
    let c ← next
    if c == '\\' && quote == '"' then
      if (← continuation) then return some []
      return some [← escaped]
    if isTextual c then return some [c]
    failure
  let extra ← takeWhile (· == quote)
  if extra.length ≤ 2 then return String.ofList (parts.flatten ++ extra) else failure
where
  /-- Spaces and line ends behind a backslash at the end of a line. -/
  continuation : CharReader Bool := fun s =>
    match s.dropWhile isSpace with
    | '\n' :: rest => some (true, dropBlank rest)
    | '\r' :: '\n' :: rest => some (true, dropBlank rest)
    | _ => some (false, s)
  /-- The input behind spaces and line ends. -/
  dropBlank : List Char → List Char
    | '\r' :: '\n' :: rest => dropBlank rest
    | c :: rest => if isSpace c || c == '\n' then dropBlank rest else c :: rest
    | [] => []

/-- A string from its first quote on. -/
def string : CharReader String := do
  let quote ← next
  if quote != '"' && quote != '\'' then failure
  if (← accept [quote, quote]) then blockString quote else lineString quote

/-! ## Numbers -/

/-- Digits, with single underscores between them. -/
def isGrouped (digit : Char → Bool) : List Char → Bool
  | [] => false
  | [c] => digit c
  | c :: '_' :: rest => digit c && isGrouped digit rest
  | c :: rest => digit c && isGrouped digit rest

/-- Grouped decimal digits without a needless zero in front. -/
def isWhole (cs : List Char) : Bool :=
  isGrouped Char.isDigit cs && (cs.head? != some '0' || cs.length == 1)

def dropSign : List Char → List Char
  | '+' :: cs => cs
  | '-' :: cs => cs
  | cs => cs

def digitValue (c : Char) : Nat :=
  if c.isDigit then c.toNat - '0'.toNat else c.toLower.toNat - 'a'.toNat + 10

/-- The number that grouped digits stand for. -/
def number (base : Nat) (cs : List Char) : Nat :=
  (cs.filter (· != '_')).foldl (fun n c => n * base + digitValue c) 0

/-- A 64-bit number. -/
def ofRange? (n : Int) : Option Value :=
  if -(Nat.pow 2 63 : Int) ≤ n ∧ n < Nat.pow 2 63 then some (.integer n) else none

def isHexDigit (c : Char) : Bool :=
  c.isDigit || ('a' ≤ c && c ≤ 'f') || ('A' ≤ c && c ≤ 'F')

def integer? : List Char → Option Value
  | '0' :: 'x' :: cs => based 16 isHexDigit cs
  | '0' :: 'o' :: cs => based 8 (fun c => '0' ≤ c && c ≤ '7') cs
  | '0' :: 'b' :: cs => based 2 (fun c => c == '0' || c == '1') cs
  | cs =>
    let digits := dropSign cs
    if !isWhole digits then none
    else if cs.head? = some '-' then ofRange? (-(number 10 digits : Int))
    else ofRange? (number 10 digits)
where
  based (base : Nat) (digit : Char → Bool) (cs : List Char) : Option Value :=
    if isGrouped digit cs then ofRange? (number base cs) else none

def isExponentMark (c : Char) : Bool := c == 'e' || c == 'E'

/-- The power of ten in a text behind the digits of a number; nothing there is the power zero. -/
def power? : List Char → Option Int
  | [] => some 0
  | mark :: cs =>
    let digits := dropSign cs
    if isExponentMark mark && isGrouped Char.isDigit digits then
      some (if cs.head? = some '-' then -(number 10 digits : Int) else number 10 digits)
    else none

/-- The number of a text with a fraction, an exponent or both, its sign left aside. -/
def decimal? (cs : List Char) : Option Decimal :=
  let cs := dropSign cs
  let whole := cs.takeWhile fun c => c != '.' && !isExponentMark c
  if !isWhole whole then none
  else
    match cs.drop whole.length with
    | [] => none
    | '.' :: rest =>
      let places := rest.takeWhile (!isExponentMark ·)
      if isGrouped Char.isDigit places then
        (power? (rest.drop places.length)).map fun power =>
          ⟨number 10 (whole ++ places), power - places.countP (· != '_')⟩
      else none
    | rest => (power? rest).map fun power => ⟨number 10 whole, power⟩

/-- Whether the text is a number with a fraction, an exponent or both, or no finite number. A
positive number may not be so large that it rounds to infinity. -/
def isFloat (cs : List Char) : Bool :=
  dropSign cs == ['i', 'n', 'f'] || dropSign cs == ['n', 'a', 'n'] ||
    (decimal? cs).any fun d => cs.head? == some '-' || !d.overflows

/-! ## Dates and times -/

/-- The number that two digits stand for. -/
def twoDigits? (a b : Char) : Option Nat :=
  if a.isDigit && b.isDigit then some (digitValue a * 10 + digitValue b) else none

def daysIn (year month : Nat) : Nat :=
  if month = 2 then
    if year % 4 = 0 ∧ (year % 100 ≠ 0 ∨ year % 400 = 0) then 29 else 28
  else if month = 4 ∨ month = 6 ∨ month = 9 ∨ month = 11 then 30
  else 31

theorem daysIn_le (year month : Nat) : daysIn year month ≤ 31 := by
  unfold daysIn
  repeat' split
  all_goals decide

/-- Whether the text begins with a day of the calendar; what is behind it. -/
def afterDate? : List Char → Option (List Char)
  | y₁ :: y₂ :: y₃ :: y₄ :: '-' :: m₁ :: m₂ :: '-' :: d₁ :: d₂ :: rest => do
    let year := (← twoDigits? y₁ y₂) * 100 + (← twoDigits? y₃ y₄)
    let month ← twoDigits? m₁ m₂
    let day ← twoDigits? d₁ d₂
    if 1 ≤ month ∧ month ≤ 12 ∧ 1 ≤ day ∧ day ≤ daysIn year month then some rest else none
  | _ => none

/-- Whether the text begins with a time of day; what is behind it. -/
def afterTime? : List Char → Option (List Char)
  | h₁ :: h₂ :: ':' :: m₁ :: m₂ :: ':' :: s₁ :: s₂ :: rest => do
    let hour ← twoDigits? h₁ h₂
    let minute ← twoDigits? m₁ m₂
    let second ← twoDigits? s₁ s₂
    if 23 < hour ∨ 59 < minute ∨ 60 < second then none
    else
      match rest with
      | '.' :: rest =>
        let places := rest.takeWhile Char.isDigit
        if places.isEmpty then none else some (rest.drop places.length)
      | rest => some rest
  | _ => none

/-- Whether the text is empty or an offset from universal time. -/
def isOffset : List Char → Bool
  | [] => true
  | ['Z'] | ['z'] => true
  | [sign, h₁, h₂, ':', m₁, m₂] =>
    (sign == '+' || sign == '-') && (twoDigits? h₁ h₂).any (· ≤ 23) &&
      (twoDigits? m₁ m₂).any (· ≤ 59)
  | _ => false

def isTimeWithOffset (cs : List Char) : Bool := (afterTime? cs).any isOffset

/-- Whether the text is a day, a time, or both with or without an offset. -/
def isDatetime (cs : List Char) : Bool :=
  match afterDate? cs with
  | some [] => true
  | some (mark :: rest) => (mark == 'T' || mark == 't' || mark == ' ') && isTimeWithOffset rest
  | none => afterTime? cs == some []

/-! ## Words -/

/-- The value that a word stands for. -/
def wordValue? (cs : List Char) : Option Value :=
  if cs = ['t', 'r', 'u', 'e'] then some (.boolean true)
  else if cs = ['f', 'a', 'l', 's', 'e'] then some (.boolean false)
  else if isDatetime cs then some (.datetime (String.ofList cs))
  else if isFloat cs then some (.float (String.ofList cs))
  else integer? cs

def isWordChar (c : Char) : Bool :=
  c.isAlphanum || c == '_' || c == '+' || c == '-' || c == '.' || c == ':'

/-- The value of a word. A day may be followed by a space and a time. -/
def word : CharReader Value := do
  let cs ← takeWhile isWordChar
  let cs ← match afterDate? cs, ← get with
    | some [], ' ' :: c :: _ =>
      if c.isDigit then
        let _ ← next
        pure (cs ++ ' ' :: (← takeWhile isWordChar))
      else pure cs
    | _, _ => pure cs
  match wordValue? cs with
  | some v => return v
  | none => failure

end CallContract.Toml
