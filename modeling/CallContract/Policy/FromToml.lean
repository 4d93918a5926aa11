import CallContract.Policy
import CallContract.Toml.Document

/-!
# Policies in TOML

A document holds a `mode` and a table of `functions`, both of which may be missing; other keys are
passed over. A mode is a string, or a table with the mode as its one key and nothing under it. An
override is a table that may hold a mode, or an array with the mode first.
-/
namespace CallContract.Policy

open Toml (Entries)

/-- Whether the value holds nothing. -/
def holdsNothing : Toml.Value → Bool
  | .array items => items.isEmpty
  | .table _ entries => entries.isEmpty
  | .rows tables => tables.isEmpty
  | _ => false

def modeOf? : Toml.Value → Option Mode
  | .string name => Mode.ofName? name
  | .table _ [(name, v)] => if holdsNothing v then Mode.ofName? name else none
  | _ => none

/-- The mode that an override carries, if it carries one. -/
def overrideOf? : Toml.Value → Option (Option Mode)
  | .table _ entries =>
    match entries.lookup "mode" with
    | some v => (modeOf? v).map some
    | none => some none
  | .array (v :: _) => (modeOf? v).map some
  | .rows (entries :: _) => (modeOf? (.table .header entries)).map some
  -- a date has no member that is a mode
  | .datetime _ => some none
  | _ => none

/-- The policy that a document says. -/
def ofToml? (document : Entries) : Option Policy := do
  let mode ← match document.lookup "mode" with
    | some v => modeOf? v
    | none => some initial.mode
  let entries ← match document.lookup "functions" with
    | some (.table _ entries) => some entries
    | some _ => none
    | none => some []
  entries.foldlM (fun p (name, v) => do return p.withOverride name (← overrideOf? v))
    (initial.withMode mode)

end CallContract.Policy
