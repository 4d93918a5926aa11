import CallContract.Value.Equality
import CallContract.Value.Printer

/-!
# Parameters and arguments

How a parameter takes arguments, and the two small records that a report names them by: the
parameter concerned (`ParamRef`), and the argument concerned with where it came from
(`Argument`). The kinds are ordered as they must follow each other in a parameter list.

**Results.**
* `mem_all`: `all` lists every kind.
* `ofName?_name`: a kind is read back from its name.
-/
namespace CallContract

inductive ParamKind where
  | positionalOnly
  | positionalOrKeyword
  /-- Collects surplus positional arguments. -/
  | varPositional
  | keywordOnly
  /-- Collects surplus keyword arguments. -/
  | varKeyword
deriving DecidableEq, Repr

namespace ParamKind

def all : List ParamKind :=
  [.positionalOnly, .positionalOrKeyword, .varPositional, .keywordOnly, .varKeyword]

/-- The place of the kind in a parameter list. -/
def rank : ParamKind → Nat
  | .positionalOnly => 0
  | .positionalOrKeyword => 1
  | .varPositional => 2
  | .keywordOnly => 3
  | .varKeyword => 4

def name : ParamKind → String
  | .positionalOnly => "positional_only"
  | .positionalOrKeyword => "positional_or_keyword"
  | .varPositional => "var_positional"
  | .keywordOnly => "keyword_only"
  | .varKeyword => "var_keyword"

def description : ParamKind → String
  | .positionalOnly => "positional-only"
  | .positionalOrKeyword => "positional or keyword"
  | .varPositional => "variadic positional"
  | .keywordOnly => "keyword-only"
  | .varKeyword => "variadic keyword"

/-- The kind of exactly this name. -/
def ofName? (name : String) : Option ParamKind := all.find? (·.name == name)

def isVariadic : ParamKind → Bool
  | .varPositional | .varKeyword => true
  | _ => false

/-- Whether one argument can fill the parameter by position. -/
def isPositional : ParamKind → Bool
  | .positionalOnly | .positionalOrKeyword => true
  | _ => false

/-- Whether one argument can fill the parameter by its name. -/
def isNamed : ParamKind → Bool
  | .positionalOrKeyword | .keywordOnly => true
  | _ => false

theorem mem_all (k : ParamKind) : k ∈ all := by cases k <;> decide

theorem ofName?_name (k : ParamKind) : ofName? k.name = some k := by cases k <;> decide

end ParamKind

/-- A declared parameter, by its position and name. -/
structure ParamRef where
  index : Nat
  name : String
deriving DecidableEq, Repr

namespace ParamRef

def text (p : ParamRef) : String := "[" ++ toString p.index ++ "]='" ++ p.name ++ "'"

/-- The form that lists every attribute. -/
def repr (p : ParamRef) : String :=
  "ParamRef(idx=" ++ toString p.index ++ ", name=" ++ Text.quoted p.name ++ ")"

end ParamRef

/-- Where a bound value came from. -/
inductive Source where
  /-- The argument at this position of the call. -/
  | positional (position : Nat)
  | keyword (name : String)
  /-- Not supplied; the declared default stands in. -/
  | default
deriving DecidableEq, Repr

def Source.text : Source → String
  | .positional position => toString position
  | .keyword name => "'" ++ name ++ "'"
  | .default => "default"

/-- A value with its source. -/
structure Argument where
  source : Source
  value : Value
deriving Repr

namespace Argument

def text (a : Argument) : String := "[" ++ a.source.text ++ "]=" ++ a.value.text

/-- The form that lists every attribute. -/
def repr (a : Argument) : String :=
  "CallArg(source=" ++ a.source.text ++ ", value=" ++ a.value.text ++ ")"

/-- Arguments are equal by source and by equality of values. -/
instance : BEq Argument := ⟨fun a b => a.source == b.source && a.value == b.value⟩

end Argument
end CallContract
