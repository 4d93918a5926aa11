/-!
# TOML values and tables

What a TOML document says: a table of keys and values. A table remembers how it came about, since
that decides what may still be added to it: tables of headers are defined once, tables implied
by the header of a table inside them may still get a header, tables of dotted keys grow by
further dotted keys, and inline tables are closed.

**Results.**
* `insert_duplicate`: no key is given twice in one table.
-/
namespace CallContract.Toml

/-- How a table came about. -/
inductive Origin where
  | header
  /-- Named on the way to a table inside it. -/
  | implied
  | dotted
  | inline
deriving DecidableEq, Repr

inductive Value where
  | string (s : String)
  | integer (n : Int)
  | float (text : String)
  | boolean (b : Bool)
  | datetime (text : String)
  | array (items : List Value)
  | table (origin : Origin) (entries : List (String × Value))
  /-- The tables of a repeated header, in order. -/
  | rows (tables : List (List (String × Value)))
deriving Repr

/-- Keys and values in the order in which they were given. -/
abbrev Entries := List (String × Value)

namespace Entries

/-- Gives the key its value, instead of any that it has. -/
def put (key : String) (v : Value) : Entries → Entries
  | [] => [(key, v)]
  | (other, w) :: rest => if other = key then (key, v) :: rest else (other, w) :: put key v rest

/-- Gives a new key its value below a path of dotted keys. On the way tables of dotted keys are
entered or made. An implied table, or the last row of a repeated header, may be passed through but
not added to. -/
def insert (key : String) (v : Value) : List String → Entries → Option Entries
  | [], entries =>
    match entries.lookup key with
    | none => some (put key v entries)
    | some _ => none
  | k :: path, entries =>
    match entries.lookup k with
    | none => (insert key v path []).map fun inner => put k (.table .dotted inner) entries
    | some (.table .dotted inner) =>
      (insert key v path inner).map fun inner => put k (.table .dotted inner) entries
    | some (.table .implied inner) =>
      if path.isEmpty then none
      else (insert key v path inner).map fun inner => put k (.table .implied inner) entries
    | some (.rows tables) =>
      match path, tables.getLast? with
      | _ :: _, some last =>
        (insert key v path last).map fun last => put k (.rows (tables.dropLast ++ [last])) entries
      | _, _ => none
    | some _ => none

theorem insert_duplicate {key : String} {v w : Value} {entries : Entries}
    (h : entries.lookup key = some w) : insert key v [] entries = none := by
  simp [insert, h]

/-- Changes the table below a path of headers, the last row of a repeated one. Tables missing on
the way are made as implied ones. -/
def update (change : Entries → Option Entries) : List String → Entries → Option Entries
  | [], entries => change entries
  | k :: path, entries =>
    match entries.lookup k with
    | none => (update change path []).map fun inner => put k (.table .implied inner) entries
    | some (.table .inline _) => none
    | some (.table origin inner) =>
      (update change path inner).map fun inner => put k (.table origin inner) entries
    | some (.rows tables) =>
      match tables.getLast? with
      | some last =>
        (update change path last).map fun last =>
          put k (.rows (tables.dropLast ++ [last])) entries
      | none => none
    | some _ => none

/-- Defines the table of a header: a new one, or one so far only implied. -/
def define (key : String) (entries : Entries) : Option Entries :=
  match entries.lookup key with
  | none => some (put key (.table .header []) entries)
  | some (.table .implied inner) => some (put key (.table .header inner) entries)
  | some _ => none

/-- Adds a table to those of a repeated header. -/
def addRow (key : String) (entries : Entries) : Option Entries :=
  match entries.lookup key with
  | none => some (put key (.rows [[]]) entries)
  | some (.rows tables) => some (put key (.rows (tables ++ [[]])) entries)
  | some _ => none

end Entries
end CallContract.Toml
