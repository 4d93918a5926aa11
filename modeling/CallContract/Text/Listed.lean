/-!
# Listed texts

Texts in a row, a comma and a space between any two of them.

**Results.**
* `listed_cons_cons`: the separator stands between neighbours and nowhere else.
-/
namespace CallContract.Text

def listed : List String → String
  | [] => ""
  | [text] => text
  | text :: next :: rest => text ++ ", " ++ listed (next :: rest)

@[simp] theorem listed_nil : listed [] = "" := rfl

@[simp] theorem listed_singleton (text : String) : listed [text] = text := rfl

@[simp] theorem listed_cons_cons (text next : String) (rest : List String) :
    listed (text :: next :: rest) = text ++ ", " ++ listed (next :: rest) := rfl

end CallContract.Text
