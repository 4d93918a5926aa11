import CallContract.Constraint.Basic

/-!
# Compilation of constraints

A constraint compiles to a flat list of checks: a type to its type check, a refinement to the
checks of its base followed by those of its items from left to right, a sequence to the test for
a sequence and its element's check on each element. An element has to compile to exactly one
check. The first problem met ends the compilation.

**Results.**
* `isValueCheck_of_checks`: all that a refinement adds are value checks.
* `checks_ne_nil`: what compiles is never empty.
-/
namespace CallContract

/-- Why a constraint does not compile. -/
inductive Problem where
  | emptyRefinement
  /-- The element of a sequence compiles to this many checks. -/
  | elementChecks (element : Constraint) (count : Nat)
  | unrecognised (text : String)
  /-- A type check where a value check belongs. -/
  | typeCheck (c : Check)
  /-- A kind that stands for no check by itself. -/
  | kindNeedsArgument (k : Check.Kind)
  | emptyGroup
deriving Repr

def Problem.message : Problem → String
  | .emptyRefinement => "refinement must list at least one value check"
  | .elementChecks element count =>
    "element type of a sequence must compile to exactly one check; `" ++ element.text ++
      "` compiles to " ++ toString count
  | .unrecognised text => "unrecognised type annotation `" ++ text ++ "`"
  | .typeCheck c => "expected a value-check instance; received check `" ++ c.text ++ "`"
  | .kindNeedsArgument k =>
    "expected a default-constructible value-check kind; received `" ++ k.name ++ "`"
  | .emptyGroup => "nested list of value checks must not be empty"

mutual

/-- The checks of one item of a refinement, groups flattened. -/
def Refinement.checks : Refinement → Except Problem (List Check)
  | .check c => if c.isValueCheck then .ok [c] else .error (.typeCheck c)
  | .kind k =>
    match k.check? with
    | some c => .ok [c]
    | none => .error (.kindNeedsArgument k)
  | .group items => if items.isEmpty then .error .emptyGroup else Refinement.checksOfAll items

def Refinement.checksOfAll : List Refinement → Except Problem (List Check)
  | [] => .ok []
  | item :: items => do
    let cs ← item.checks
    let ds ← Refinement.checksOfAll items
    return cs ++ ds

end

/-- The checks that a constraint stands for, or the first problem in it. -/
def Constraint.checks : Constraint → Except Problem (List Check)
  | .plain t => .ok [.typeEquals t]
  | .refined base items =>
    if items.isEmpty then .error .emptyRefinement
    else do
      let cs ← base.checks
      let ds ← Refinement.checksOfAll items
      return cs ++ ds
  | .sequenceOf element => do
    match ← element.checks with
    | [c] => return [.isSequenceShaped (.sequenceOf element.declaredType), .eachSatisfies c]
    | cs => .error (.elementChecks element cs.length)
  | .other text => .error (.unrecognised text)

/-! ## What compiles -/

theorem Check.isValueCheck_of_check? {k : Check.Kind} {c : Check} (h : k.check? = some c) :
    c.isValueCheck = true := by
  cases k <;> cases h <;> rfl

mutual

theorem Refinement.isValueCheck_of_checks {item : Refinement} {cs : List Check}
    (h : item.checks = .ok cs) : ∀ c ∈ cs, c.isValueCheck = true := by
  cases item with
  | check c =>
    rw [Refinement.checks] at h
    split at h
    · cases h; simpa
    · cases h
  | kind k =>
    rw [Refinement.checks] at h
    split at h
    next hk => cases h; simpa using Check.isValueCheck_of_check? hk
    next => cases h
  | group items =>
    rw [Refinement.checks] at h
    split at h
    · cases h
    · exact Refinement.isValueCheck_of_checksOfAll h

theorem Refinement.isValueCheck_of_checksOfAll {items : List Refinement} {cs : List Check}
    (h : Refinement.checksOfAll items = .ok cs) : ∀ c ∈ cs, c.isValueCheck = true := by
  cases items with
  | nil => cases h; simp
  | cons item items =>
    rw [Refinement.checksOfAll] at h
    cases hi : item.checks with
    | error e => simp [hi, bind, Except.bind] at h
    | ok cs₁ =>
      cases hs : Refinement.checksOfAll items with
      | error e => simp [hi, hs, bind, Except.bind] at h
      | ok cs₂ =>
        simp only [hi, hs, bind, Except.bind, pure, Except.pure, Except.ok.injEq] at h
        subst h
        intro c hc
        rcases List.mem_append.1 hc with hc | hc
        · exact Refinement.isValueCheck_of_checks hi c hc
        · exact Refinement.isValueCheck_of_checksOfAll hs c hc

end

theorem Constraint.checks_ne_nil {a : Constraint} {cs : List Check} (h : a.checks = .ok cs) :
    cs ≠ [] := by
  induction a generalizing cs with
  | plain t => cases h; simp
  | refined base items ih =>
    rw [Constraint.checks] at h
    split at h
    · cases h
    · cases hb : base.checks with
      | error e => simp [hb, bind, Except.bind] at h
      | ok cs₁ =>
        cases hs : Refinement.checksOfAll items with
        | error e => simp [hb, hs, bind, Except.bind] at h
        | ok cs₂ =>
          simp only [hb, hs, bind, Except.bind, pure, Except.pure, Except.ok.injEq] at h
          simp [← h, ih hb]
  | sequenceOf element =>
    rw [Constraint.checks] at h
    cases he : element.checks with
    | error e => simp [he, bind, Except.bind] at h
    | ok cs₁ =>
      simp only [he, bind, Except.bind] at h
      split at h
      · cases h; simp
      · cases h
  | other text => cases h

end CallContract
