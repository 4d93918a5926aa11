import CallContract.Policy
import CallContract.Yaml.Node

/-!
# Policies in YAML

A document holds a `mode` and a mapping of `functions`, both of which may be missing; other keys
are passed over. An override may hold a mode, which may also be null there. Where nothing stands in
the place of a mapping, it has no entries. A name given twice is an error for a member, while of
two overrides for one function the last one counts.
-/
namespace CallContract.Policy

open Yaml (Node)

/-- Whether nothing stands where the node could. -/
def isLeftOut : Node → Bool
  | .scalar true text => text.isEmpty
  | _ => false

/-- Whether the text of a plain scalar means that there is no value. -/
def isNullText (text : String) : Bool :=
  ["", "~", "null", "Null", "NULL"].contains text

def scalarMode? : Node → Option Mode
  | .scalar _ text => Mode.ofName? text
  | _ => none

/-- A mode that may be null. -/
def optionalMode? : Node → Option (Option Mode)
  | .scalar true text =>
    if isNullText text then some none else (Mode.ofName? text).map some
  | v => (scalarMode? v).map some

/-- Members by name: the value of the only entry of this name, if there is one. Names are scalars,
and this one may not be given twice. -/
def member? (name : String) : List (Node × Node) → Option (Option Node)
  | [] => some none
  | (.scalar _ key, v) :: entries => do
    match key == name, ← member? name entries with
    | false, found => return found
    | true, none => return some v
    | true, some _ => none
  | _ => none

def overrideOfNode? : Node → Option (Option Mode)
  | .mapping entries => do
    match ← member? "mode" entries with
    | some v => optionalMode? v
    | none => return none
  | v => if isLeftOut v then some none else none

/-- The overrides in the order given. -/
def functionsOf? : Node → Option (List (String × Option Mode))
  | .mapping entries => entries.mapM fun (key, v) =>
    match key with
    | .scalar _ name => do return (name, ← overrideOfNode? v)
    | _ => none
  | v => if isLeftOut v then some [] else none

/-- The policy that a document says. -/
def ofYaml? : Option Node → Option Policy
  | none => some initial
  | some (.mapping entries) => do
    let mode ← match ← member? "mode" entries with
      | some v => scalarMode? v
      | none => some initial.mode
    let overrides ← match ← member? "functions" entries with
      | some v => functionsOf? v
      | none => some []
    return overrides.foldl (fun p (name, m) => p.withOverride name m) (initial.withMode mode)
  | some v => if isLeftOut v then some initial else none

end CallContract.Policy
