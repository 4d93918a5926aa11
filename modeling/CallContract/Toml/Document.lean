import CallContract.Toml.Statement

/-!
# TOML documents

A document's statements build up one table. A header names the table to which the keys behind it
belong; a key or a header that contradicts what was said before makes the document invalid.

**Results.**
* `apply_duplicate`: no key is given twice under one header.
-/
namespace CallContract.Toml

/-- The table built so far, and the path of the header that is in force. -/
structure Document where
  root : Entries
  current : List String
deriving Repr

namespace Document

def empty : Document := ⟨[], []⟩

/-- The document with one more statement. -/
def apply (d : Document) : Statement → Option Document
  | .header p => do
    let root ← Entries.update (Entries.define p.last) p.init d.root
    return ⟨root, p.init ++ [p.last]⟩
  | .row p => do
    let root ← Entries.update (Entries.addRow p.last) p.init d.root
    return ⟨root, p.init ++ [p.last]⟩
  | .assign p v => do
    let root ← Entries.update (Entries.insert p.last v p.init) d.current d.root
    return { d with root := root }

theorem apply_duplicate {d : Document} {key : String} {v w : Value} (hc : d.current = [])
    (h : d.root.lookup key = some w) : d.apply (.assign ⟨[], key⟩ v) = none := by
  simp [apply, hc, Entries.update, Entries.insert_duplicate h]

/-- The table of a document's text, after a byte order mark if there is one. -/
def read? (text : String) : Option Entries := do
  let cs := match text.toList with
    | '\ufeff' :: cs => cs
    | cs => cs
  let (statements, rest) ← (Reader.many statement) cs
  if rest.isEmpty then
    let d ← statements.foldlM apply empty
    return d.root
  else none

end Document
end CallContract.Toml
