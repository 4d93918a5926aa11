import CallContract.Signature

/-!
# Binding of calls

A call's arguments are bound to the parameters of a signature. Positional arguments fill the
positional parameters in order and the rest goes to a variadic one; then each parameter left takes
the keyword of its name, or else its default; the keywords that no parameter takes by name go to
a variadic keyword parameter. A variadic parameter has one bound value for each that it collects.
The bound values stand in the order of their parameters.

**Results.**
* `firstRepeated_eq_none`: no keyword is repeated exactly when all are distinct.
* `fillPositional_nil`: a call without positional arguments leaves every parameter open.
-/
namespace CallContract

/-- The arguments of one call, as the caller gave them. -/
structure Call where
  args : List Value
  kwargs : List (String × Value)
deriving Repr, Inhabited

namespace Call

/-- The first value given under the keyword. -/
def keyword? (c : Call) (name : String) : Option Value := c.kwargs.lookup name

def hasKeyword (c : Call) (name : String) : Bool := (c.keyword? name).isSome

end Call

/-- Why a call cannot be bound. -/
inductive Rejection where
  | missingArgument (name : String)
  | missingKeywordOnlyArgument (name : String)
  | tooManyPositional
  | multipleValues (name : String)
  | unexpectedKeyword (name : String)
  | positionalOnlyAsKeyword (name : String)
  | duplicateKeyword (name : String)
deriving DecidableEq, Repr

namespace Rejection

def name : Rejection → String
  | .missingArgument _ => "MissingArgument"
  | .missingKeywordOnlyArgument _ => "MissingKeywordOnlyArgument"
  | .tooManyPositional => "TooManyPositional"
  | .multipleValues _ => "MultipleValues"
  | .unexpectedKeyword _ => "UnexpectedKeyword"
  | .positionalOnlyAsKeyword _ => "PositionalOnlyAsKeyword"
  | .duplicateKeyword _ => "DuplicateKeyword"

def message : Rejection → String
  | .missingArgument name => "missing a required argument: '" ++ name ++ "'"
  | .missingKeywordOnlyArgument name =>
    "missing a required keyword-only argument: '" ++ name ++ "'"
  | .tooManyPositional => "too many positional arguments"
  | .multipleValues name => "multiple values for argument '" ++ name ++ "'"
  | .unexpectedKeyword name => "got an unexpected keyword argument '" ++ name ++ "'"
  | .positionalOnlyAsKeyword name =>
    "'" ++ name ++ "' parameter is positional only, but was passed as a keyword"
  | .duplicateKeyword name => "multiple values for keyword argument '" ++ name ++ "'"

end Rejection

/-- A value bound to the parameter at an index. -/
structure Bound where
  param : Nat
  argument : Argument
deriving Repr

namespace Signature

/-! ## The steps of binding -/

/-- The first name equal to an earlier one, or to one of those seen before. -/
def firstRepeated (seen : List String) : List String → Option String
  | [] => none
  | name :: names =>
    if seen.contains name then some name else firstRepeated (name :: seen) names

theorem firstRepeated_eq_none {seen names : List String} :
    firstRepeated seen names = none ↔ names.Nodup ∧ ∀ name ∈ names, name ∉ seen := by
  induction names generalizing seen with
  | nil => simp [firstRepeated]
  | cons name names ih =>
    simp only [firstRepeated, List.contains_iff_mem, List.nodup_cons, List.mem_cons,
      forall_eq_or_imp]
    split
    · simp_all
    · simp only [ih, List.mem_cons, not_or]
      constructor
      · rintro ⟨hn, hs⟩
        exact ⟨⟨fun hm => (hs name hm).1 rfl, hn⟩, ‹_›, fun x hx => (hs x hx).2⟩
      · rintro ⟨⟨hm, hn⟩, _, hs⟩
        exact ⟨hn, fun x hx => ⟨fun he => hm (he ▸ hx), hs x hx⟩⟩

/-- Parameters, each with its index, and positional arguments, each with its position: the values
bound by position and the parameters not reached. -/
def fillPositional (call : Call) :
    List (Param × Nat) → List (Value × Nat) → Except Rejection (List Bound × List (Param × Nat))
  | params, [] => .ok ([], params)
  | [], _ :: _ => .error .tooManyPositional
  | (p, index) :: params, (v, position) :: args =>
    match p.kind with
    | .positionalOnly => do
      let (bound, rest) ← fillPositional call params args
      return (⟨index, .positional position, v⟩ :: bound, rest)
    | .positionalOrKeyword =>
      if call.hasKeyword p.name then .error (.multipleValues p.name)
      else do
        let (bound, rest) ← fillPositional call params args
        return (⟨index, .positional position, v⟩ :: bound, rest)
    | .varPositional =>
      let collected := ((v, position) :: args).map fun (v, position) =>
        ⟨index, .positional position, v⟩
      .ok (collected, params)
    | .keywordOnly | .varKeyword => .error .tooManyPositional

theorem fillPositional_nil (call : Call) (params : List (Param × Nat)) :
    fillPositional call params [] = .ok ([], params) := by
  cases params <;> rfl

/-- The value that a parameter not reached by position takes by name or by default. A variadic
one takes none here. The name of a positional-only parameter may be used as a keyword only where a
variadic keyword parameter collects it. -/
def fillNamed (call : Call) (collects : Bool) (p : Param) : Except Rejection (Option Argument) :=
  if p.kind.isVariadic then .ok none
  else
    match call.keyword? p.name with
    | some v =>
      if p.kind.isNamed then .ok (some ⟨.keyword p.name, v⟩)
      else if collects then fromDefault
      else .error (.positionalOnlyAsKeyword p.name)
    | none => fromDefault
where
  fromDefault :=
    match p.default with
    | some v => .ok (some ⟨.default, v⟩)
    | none =>
      .error <| if p.kind = .keywordOnly then .missingKeywordOnlyArgument p.name
        else .missingArgument p.name

/-- The values that the parameters not reached by position take, in order. -/
def fillAllNamed (call : Call) (collects : Bool) :
    List (Param × Nat) → Except Rejection (List Bound)
  | [] => .ok []
  | (p, index) :: params => do
    let argument ← fillNamed call collects p
    let bound ← fillAllNamed call collects params
    return (argument.map (Bound.mk index)).toList ++ bound

/-- Whether some parameter takes this keyword by its name. -/
def takesKeyword (s : Signature) (name : String) : Bool :=
  s.params.any fun p => p.kind.isNamed && p.name == name

/-- The index of the parameter that collects surplus keywords. -/
def collector? (s : Signature) : Option Nat := s.params.findIdx? (·.kind = .varKeyword)

/-- The keywords that no parameter takes by name. -/
def surplus (s : Signature) (call : Call) : List (String × Value) :=
  call.kwargs.filter fun entry => !s.takesKeyword entry.1

def fillSurplus (s : Signature) (call : Call) : Except Rejection (List Bound) :=
  match s.collector?, s.surplus call with
  | some index, entries => .ok (entries.map fun (name, v) => ⟨index, .keyword name, v⟩)
  | none, [] => .ok []
  | none, (name, _) :: _ => .error (.unexpectedKeyword name)

/-! ## Binding -/

/-- Every value bound by the call, defaults included, in the order of the parameters. -/
def bind (s : Signature) (call : Call) : Except Rejection (List Bound) :=
  match firstRepeated [] (call.kwargs.map (·.1)) with
  | some name => .error (.duplicateKeyword name)
  | none => do
    let (byPosition, rest) ← fillPositional call s.params.zipIdx call.args.zipIdx
    let byName ← fillAllNamed call s.collector?.isSome rest
    let collected ← s.fillSurplus call
    return byPosition ++ byName ++ collected

/-- The values bound to one parameter; none for a variadic one that collects nothing. -/
def boundTo (bound : List Bound) (index : Nat) : List Bound := bound.filter (·.param == index)

end Signature
end CallContract
