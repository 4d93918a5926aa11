import CallContract.Policy.FromToml
import CallContract.Policy.FromYaml

/-!
# Reading policies

A policy is read from a text in one of two formats, or from the bytes of a file, which have to be
there and to be UTF-8. What is read has to be valid.

**Results.**
* `validate_eq_ok`: validation changes nothing.
-/
namespace CallContract.Policy

inductive Format where
  | toml | yaml
deriving DecidableEq, Repr

/-- What the text says in its format, before validation. -/
def Format.read (f : Format) (text : String) : Except Error Policy :=
  match f with
  | .toml =>
    match (Toml.Document.read? text).bind ofToml? with
    | some p => .ok p
    | none => .error .toml
  | .yaml =>
    match ((Yaml.Token.ofText? text).bind Yaml.Node.ofTokens?).bind ofYaml? with
    | some p => .ok p
    | none => .error .yaml

/-- The policy of a text. -/
def ofText (f : Format) (text : String) : Except Error Policy := do
  (← f.read text).validate

/-- The policy of a file's bytes; there are none if there is no file. -/
def ofFile (f : Format) (bytes : Option ByteArray) : Except Error Policy :=
  match bytes.bind String.fromUTF8? with
  | some text => ofText f text
  | none => .error .unreadable

theorem validate_eq_ok {p q : Policy} (h : p.validate = .ok q) : q = p := by
  unfold validate at h
  split at h
  · cases h
  · cases h; rfl

end CallContract.Policy
