import CallContract.Text.Blank
import CallContract.Text.Quoted

/-!
# Policies

A policy says how calls are treated: checks are enforced, failed checks are only warned of, or
nothing is looked at. It has a mode for all functions and overrides for functions by name, kept
in the order of the names. An override need not carry a mode. Names are matched exactly; a
name that is blank is not valid.

**Results.**
* `lookup_insert`: after an override is set, its name has it and other names keep theirs.
* `invalidName?_eq_none`: a policy is valid exactly when no name in it is blank.
-/
namespace CallContract

inductive Mode where
  /-- Failures are returned to the caller. -/
  | enforce
  /-- Failed checks are logged and the call goes on; calls that cannot be bound are refused. -/
  | warn
  /-- Calls go on without a look at their arguments. -/
  | off
deriving DecidableEq, Repr

namespace Mode

def all : List Mode := [.enforce, .warn, .off]

def name : Mode → String
  | .enforce => "enforce"
  | .warn => "warn"
  | .off => "off"

/-- The mode of exactly this name. -/
def ofName? (name : String) : Option Mode := all.find? (·.name == name)

/-- The capitalised name. -/
def title : Mode → String
  | .enforce => "Enforce"
  | .warn => "Warn"
  | .off => "Off"

theorem ofName?_name (m : Mode) : ofName? m.name = some m := by cases m <;> decide

end Mode

/-- How calls are treated: a mode for all functions, and overrides by name in the order of names. -/
structure Policy where
  mode : Mode
  overrides : List (String × Option Mode)
deriving DecidableEq, Repr

namespace Policy

/-- Everything is enforced. -/
def initial : Policy := ⟨.enforce, []⟩

instance : Inhabited Policy := ⟨initial⟩

/-- An entry put in its place by name, instead of one of the same name. -/
def insert (name : String) (mode : Option Mode) :
    List (String × Option Mode) → List (String × Option Mode)
  | [] => [(name, mode)]
  | (other, kept) :: rest =>
    if name = other then (name, mode) :: rest
    else if name < other then (name, mode) :: (other, kept) :: rest
    else (other, kept) :: insert name mode rest

theorem lookup_insert (name sought : String) (mode : Option Mode)
    (entries : List (String × Option Mode)) :
    (insert name mode entries).lookup sought =
      if sought = name then some mode else entries.lookup sought := by
  have hb (other : String) : (sought == other) = decide (sought = other) := rfl
  induction entries with
  | nil => by_cases h : sought = name <;> simp [insert, List.lookup_cons, hb, h]
  | cons entry rest ih =>
    obtain ⟨other, kept⟩ := entry
    rw [insert]
    split
    next h =>
      subst h
      by_cases h : sought = name <;> simp [List.lookup_cons, hb, h]
    next hne =>
      split
      next => by_cases h : sought = name <;> simp [List.lookup_cons, hb, h]
      next =>
        simp only [List.lookup_cons, ih, hb]
        by_cases h : sought = name
        · subst h; simp [hne]
        · simp [h]

/-! ## Updates -/

def withMode (p : Policy) (mode : Mode) : Policy := { p with mode := mode }

/-- The policy with an override for a function; an override without a mode leaves the function
with the mode of all. -/
def withOverride (p : Policy) (name : String) (mode : Option Mode) : Policy :=
  { p with overrides := insert name mode p.overrides }

/-! ## Look-up and validity -/

/-- The mode in effect for a function. -/
def modeFor (p : Policy) (name : String) : Mode := ((p.overrides.lookup name).join).getD p.mode

/-- The first blank name among the overrides. -/
def invalidName? (p : Policy) : Option String :=
  (p.overrides.map (·.1)).find? Text.isBlank

theorem invalidName?_eq_none {p : Policy} :
    p.invalidName? = none ↔ ∀ entry ∈ p.overrides, Text.isBlank entry.1 = false := by
  simp [invalidName?, List.find?_eq_none]

end Policy

/-- Why no policy could be read. -/
inductive Policy.Error where
  /-- There is no such file, or it is not text. -/
  | unreadable
  | toml
  | yaml
  /-- An override has a blank name. -/
  | invalid (name : String)
deriving DecidableEq, Repr

namespace Policy.Error

def name : Policy.Error → String
  | .unreadable => "Io"
  | .toml => "Toml"
  | .yaml => "Yaml"
  | .invalid _ => "Invalid"

/-- The sentence about an override with a blank name. -/
def blankNameMessage (name : String) : String :=
  "Invalid configuration: function override name must not be blank: " ++ Text.quoted name

end Policy.Error

/-- The policy itself, if it is valid. -/
def Policy.validate (p : Policy) : Except Policy.Error Policy :=
  match p.invalidName? with
  | some name => .error (.invalid name)
  | none => .ok p

end CallContract
