import CallContract.Binding
import CallContract.Proofs.Signatures.Lists

/-!
# The outcome of binding, seen as a whole

Binding walks through parameters and arguments in steps. Here is its outcome without steps: all
defects of a call, each by a condition on the call and the signature as a whole, in the order in
which they are reported (`defects`), and what each parameter holds, by the parameter and its index
alone (`held`). That the steps come to this outcome is proved in the modules behind this one.

**Results.**
* `firstRepeated_eq_head?`: the first keyword repeated is the head of all that are.
* `surplus_eq_unaccepted`: surplus are the keywords that no parameter accepts.
-/
namespace CallContract

namespace Call

/-- The keywords without their values, in call order. -/
def keywords (call : Call) : List String := call.kwargs.map (·.1)

/-- The keywords equal to an earlier one, in call order. -/
def repeatedKeywords (call : Call) : List String :=
  call.keywords.zipIdx.filterMap fun (name, i) =>
    if name ∈ call.keywords.take i then some name else none

theorem hasKeyword_iff {call : Call} {name : String} :
    call.hasKeyword name = true ↔ name ∈ call.keywords := by
  simp only [hasKeyword, keyword?, keywords, List.lookup_isSome_iff, List.mem_map, beq_iff_eq,
    eq_comm (a := name)]

theorem mem_kwargs_of_keyword? {call : Call} {name : String} {v : Value}
    (h : call.keyword? name = some v) : (name, v) ∈ call.kwargs := by
  obtain ⟨before, behind, hs, -⟩ := List.lookup_eq_some_iff.1 h
  rw [hs]
  simp

end Call

namespace Signature

/-! ## Defects of calls -/

/-- Some parameter takes the keyword by its name. -/
def Accepts (s : Signature) (name : String) : Prop :=
  ∃ p ∈ s.params, p.kind.isNamed = true ∧ p.name = name

instance (s : Signature) (name : String) : Decidable (s.Accepts name) :=
  inferInstanceAs (Decidable (∃ p ∈ s.params, p.kind.isNamed = true ∧ p.name = name))

/-- The keywords that no parameter accepts, with their values, in call order. -/
def unaccepted (s : Signature) (call : Call) : List (String × Value) :=
  call.kwargs.filter fun entry => ¬ s.Accepts entry.1

theorem mem_unaccepted {s : Signature} {call : Call} {name : String} {v : Value} :
    (name, v) ∈ s.unaccepted call ↔ (name, v) ∈ call.kwargs ∧ ¬ s.Accepts name := by
  simp [unaccepted]

/-- How many parameters a call fills by position. -/
def filledCount (s : Signature) (call : Call) : Nat := min call.args.length s.positionalCount

/-- Whether some parameter collects surplus positional arguments. -/
def collectsPositional (s : Signature) : Bool := s.params.any (·.kind = .varPositional)

/-- Whether some parameter collects surplus keywords. -/
def collectsKeywords (s : Signature) : Bool := s.params.any (·.kind = .varKeyword)

/-- A parameter filled by position and given by name as well. -/
def multipleValues? (filled : Nat) (call : Call) : Param × Nat → Option Rejection
  | (p, i) =>
    if i < filled ∧ p.kind = .positionalOrKeyword ∧ p.name ∈ call.keywords then
      some (.multipleValues p.name)
    else none

/-- What is wrong with a parameter that is not variadic and not filled by position. -/
def openDefect? (collects : Bool) (call : Call) (p : Param) : Option Rejection :=
  if p.kind = .positionalOnly ∧ p.name ∈ call.keywords ∧ collects = false then
    some (.positionalOnlyAsKeyword p.name)
  else if p.default = none ∧ (p.kind = .positionalOnly ∨ p.name ∉ call.keywords) then
    some (if p.kind = .keywordOnly then .missingKeywordOnlyArgument p.name
      else .missingArgument p.name)
  else none

/-- The keywords that nothing takes, where no parameter collects them. -/
def surplusDefects (s : Signature) (call : Call) : List Rejection :=
  if s.collectsKeywords = true then []
  else (s.unaccepted call).map fun (name, _) => .unexpectedKeyword name

/-- Everything that is wrong with a call, in the order of report. -/
def defects (s : Signature) (call : Call) : List Rejection :=
  call.repeatedKeywords.map .duplicateKeyword ++
  s.params.zipIdx.filterMap (multipleValues? (s.filledCount call) call) ++
  (if s.positionalCount < call.args.length ∧ s.collectsPositional = false then
    [.tooManyPositional] else []) ++
  s.params.zipIdx.filterMap (fun (p, i) =>
    if i < s.filledCount call ∨ p.kind.isVariadic = true then none
    else openDefect? s.collectsKeywords call p) ++
  s.surplusDefects call

/-- The first of the defects, or the result if there is none. -/
def rejectFirst {α : Type} (defects : List Rejection) (result : α) : Except Rejection α :=
  match defects with
  | e :: _ => .error e
  | [] => .ok result

theorem rejectFirst_eq_error {α : Type} {ds : List Rejection} {x : α} {e : Rejection} :
    rejectFirst ds x = .error e ↔ ds.head? = some e := by
  cases ds <;> simp [rejectFirst]

theorem rejectFirst_eq_ok {α : Type} {ds : List Rejection} {x y : α} :
    rejectFirst ds x = .ok y ↔ ds = [] ∧ x = y := by
  cases ds <;> simp [rejectFirst]

/-! ## What parameters hold -/

/-- What a parameter takes that is not filled by position: an argument by name, else its
default. -/
def takenOpen? (call : Call) (p : Param) : Option Argument :=
  (if p.kind.isNamed then (call.keyword? p.name).map (⟨.keyword p.name, ·⟩) else none) <|>
  p.default.map (⟨.default, ·⟩)

/-- What a parameter that is not variadic takes. -/
def taken? (call : Call) (p : Param) (i : Nat) : Option Argument :=
  (if p.kind.isPositional then call.args[i]?.map (⟨.positional i, ·⟩) else none) <|>
  takenOpen? call p

/-- The values bound to a parameter. -/
def held (s : Signature) (call : Call) : Param × Nat → List Bound
  | (p, i) =>
    match p.kind with
    | .varPositional => (call.args.zipIdx.drop i).map fun (v, j) => ⟨i, .positional j, v⟩
    | .varKeyword => (s.unaccepted call).map fun (name, v) => ⟨i, .keyword name, v⟩
    | _ => ((taken? call p i).map (Bound.mk i)).toList

/-- All bound values, parameter by parameter. -/
def table (s : Signature) (call : Call) : List Bound := s.params.zipIdx.flatMap (s.held call)

/-! ## Repeated and surplus keywords -/

theorem firstRepeated_eq_head? (seen names : List String) :
    firstRepeated seen names =
      (names.zipIdx.filterMap fun x =>
        if x.1 ∈ seen ∨ x.1 ∈ names.take x.2 then some x.1 else none).head? := by
  induction names generalizing seen with
  | nil => rfl
  | cons name names ih =>
    rw [firstRepeated, ih, List.zipIdx_cons', List.filterMap_cons, List.filterMap_map]
    by_cases h : name ∈ seen
    · simp [h]
    · have hf : ((fun x : String × Nat =>
          if x.1 ∈ seen ∨ x.1 ∈ (name :: names).take x.2 then some x.1 else none) ∘
            Prod.map id (· + 1)) = fun x : String × Nat =>
          if x.1 ∈ name :: seen ∨ x.1 ∈ names.take x.2 then some x.1 else none := by
        funext x
        simp only [Function.comp_apply, Prod.map_fst, Prod.map_snd, id, List.take_succ_cons,
          List.mem_cons]
        congr 1
        exact propext ⟨by tauto, by tauto⟩
      simp only [List.contains_iff_mem, h, if_false, List.take_zero, List.not_mem_nil, or_self]
      exact congrArg (fun f => (names.zipIdx.filterMap f).head?) hf.symm

theorem firstRepeated_eq_repeatedKeywords (call : Call) :
    firstRepeated [] (call.kwargs.map (·.1)) = call.repeatedKeywords.head? := by
  rw [firstRepeated_eq_head?, Call.repeatedKeywords, Call.keywords]
  simp

theorem takesKeyword_iff {s : Signature} {name : String} :
    s.takesKeyword name = true ↔ s.Accepts name := by
  simp [takesKeyword, Accepts]

theorem surplus_eq_unaccepted (s : Signature) (call : Call) :
    s.surplus call = s.unaccepted call := by
  refine List.filter_congr fun entry _ => ?_
  rw [Bool.eq_iff_iff]
  simp [← takesKeyword_iff]

end Signature
end CallContract
