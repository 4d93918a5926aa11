import CallContract.Decimal.Layout
import CallContract.Text.Listed
import CallContract.Text.Quoted
import CallContract.Value.Basic

/-!
# The text of a value

Lists stand in brackets, tuples in parentheses, dicts in braces with a colon after each key; a
tuple of one item ends in a comma. Texts are quoted, floats have the shortest digits that read
back.
-/
namespace CallContract
namespace Value

/-- Floats from 0.0001 up to and without 10^16 are written without an exponent. -/
def floatLayout : Decimal.Layout := ⟨-4, 16⟩

mutual

def text : Value → String
  | .none => "None"
  | .bool b => if b then "true" else "false"
  | .int n => toString n.toInt
  | .float x => floatLayout.text x
  | .str s => Text.quoted s
  | .list items => "[" ++ Text.listed (itemTexts items) ++ "]"
  | .tuple items => "(" ++ Text.listed (itemTexts items) ++ (if items.length = 1 then ",)" else ")")
  | .dict entries => "\x7b" ++ Text.listed (entryTexts entries) ++ "\x7d"

def itemTexts : List Value → List String
  | [] => []
  | v :: items => text v :: itemTexts items

def entryTexts : List (Value × Value) → List String
  | [] => []
  | (key, value) :: entries => (text key ++ ": " ++ text value) :: entryTexts entries

end

end Value
end CallContract
