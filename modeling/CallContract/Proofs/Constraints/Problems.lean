import CallContract.Proofs.Constraints.Support

/-!
# The first problem of a constraint

Which problem the compilation of a constraint reports is said here without compiling anything. The
nodes of a constraint stand in a row: a refinement before its base, the base before the items, the
items from left to right with what is in a group behind the group itself, and a sequence behind all
nodes of its element. A node is looked at by itself (`Node.problem?`), and the first one with a
problem is reported.

A sequence is looked at last because its problem is about the number of checks that its element
comes to, which is known only where nothing is wrong inside the element. That number is read off the
constraint as well (`checkCount`).

**Results.**
* `Problem.says_iff`: the words of a problem.
* `checks_eq_error_iff`: the problem reported is that of the first node that has one.
* `isOk_checks_iff_firstProblem?`: without any such node a constraint compiles.
-/
namespace CallContract

theorem exceptBind_eq_error {ε α β : Type} {x : Except ε α} {f : α → Except ε β} {e : ε} :
    x >>= f = .error e ↔ x = .error e ∨ ∃ a, x = .ok a ∧ f a = .error e := by
  cases x with
  | error e' => simp [bind, Except.bind]
  | ok a => simp [bind, Except.bind]

/-- What can fail for one reason only succeeds where there is none. -/
theorem isOk_iff_of_error_iff {ε α : Type} {x : Except ε α} {reason : Option ε}
    (h : ∀ e, x = .error e ↔ reason = some e) : (∃ a, x = .ok a) ↔ reason = none := by
  cases x with
  | error e => simp [(h e).1 rfl]
  | ok a =>
    refine iff_of_true ⟨a, rfl⟩ (Option.eq_none_iff_forall_ne_some.2 fun e he => ?_)
    cases (h e).2 he

/-! ## Nodes -/

/-- A part of a constraint that can have a problem of its own. -/
inductive Constraint.Node where
  | constraint (a : Constraint)
  | item (item : Refinement)

open Constraint (Node)

mutual

/-- An item, and behind a group all that is in it. -/
def Refinement.nodes : Refinement → List Node
  | .check c => [.item (.check c)]
  | .kind k => [.item (.kind k)]
  | .group items => .item (.group items) :: Refinement.nodesOfAll items

def Refinement.nodesOfAll : List Refinement → List Node
  | [] => []
  | item :: items => item.nodes ++ Refinement.nodesOfAll items

end

namespace Constraint

/-- All nodes, in the order in which their problems come before each other. -/
def nodes : Constraint → List Node
  | .plain t => [.constraint (.plain t)]
  | .refined base items =>
    .constraint (.refined base items) :: (base.nodes ++ Refinement.nodesOfAll items)
  | .sequenceOf element => element.nodes ++ [.constraint (.sequenceOf element)]
  | .other text => [.constraint (.other text)]

/-- How many checks a constraint comes to, if nothing in it has a problem. -/
def checkCount : Constraint → Nat
  | .plain _ => 1
  | .refined base items => base.checkCount + (Refinement.leavesOfAll items).length
  | .sequenceOf _ => 2
  | .other _ => 0

end Constraint

/-- What is wrong with a node, whatever stands inside it. -/
def Constraint.Node.problem? : Node → Option Problem
  | .constraint (.plain _) => none
  | .constraint (.refined _ items) => if items = [] then some .emptyRefinement else none
  | .constraint (.sequenceOf element) =>
    if element.checkCount = 1 then none
    else some (.elementChecks element element.checkCount)
  | .constraint (.other text) => some (.unrecognised text)
  | .item (.check c) => if c.category = .type then some (.typeCheck c) else none
  | .item (.kind k) =>
    if k ∈ [Check.Kind.nonEmpty, .monotonicIncreasing, .positive] then none
    else some (.kindNeedsArgument k)
  | .item (.group items) => if items = [] then some .emptyGroup else none

/-- The problem of the first node that has one. -/
def Constraint.firstProblem? (a : Constraint) : Option Problem := a.nodes.findSome? Node.problem?

/-- The words in which a problem is reported. -/
inductive Problem.Says : Problem → String → Prop where
  | emptyRefinement : Says .emptyRefinement "refinement must list at least one value check"
  | elementChecks (element : Constraint) (count : Nat) : Says (.elementChecks element count)
      ("element type of a sequence must compile to exactly one check; `" ++ element.text ++
        "` compiles to " ++ toString count)
  | unrecognised (text : String) :
    Says (.unrecognised text) ("unrecognised type annotation `" ++ text ++ "`")
  | typeCheck (c : Check) :
    Says (.typeCheck c) ("expected a value-check instance; received check `" ++ c.text ++ "`")
  | kindNeedsArgument (k : Check.Kind) : Says (.kindNeedsArgument k)
      ("expected a default-constructible value-check kind; received `" ++ k.name ++ "`")
  | emptyGroup : Says .emptyGroup "nested list of value checks must not be empty"

theorem Problem.says_iff {problem : Problem} {text : String} :
    problem.Says text ↔ text = problem.message := by
  constructor
  · intro h
    cases h <;> rfl
  · intro h
    subst h
    cases problem <;> constructor

/-! ## Items -/

namespace Refinement

mutual

theorem checks_eq_error_iff {item : Refinement} {e : Problem} :
    item.checks = .error e ↔ item.nodes.findSome? Node.problem? = some e := by
  cases item with
  | check c =>
    rw [checks, nodes, List.findSome?_singleton, Node.problem?]
    by_cases h : c.category = .type <;> simp [h, Check.isValueCheck]
  | kind k =>
    rw [checks, nodes, List.findSome?_singleton, Node.problem?]
    cases k <;> simp [Check.Kind.check?]
  | group items =>
    rw [checks, nodes, List.findSome?_cons, Node.problem?]
    cases items with
    | nil => simp
    | cons item items => simpa using checksOfAll_eq_error_iff

theorem checksOfAll_eq_error_iff {items : List Refinement} {e : Problem} :
    checksOfAll items = .error e ↔ (nodesOfAll items).findSome? Node.problem? = some e := by
  cases items with
  | nil => simp [checksOfAll, nodesOfAll]
  | cons item items =>
    have hitem : (∃ cs, item.checks = .ok cs) ↔ item.nodes.findSome? Node.problem? = none :=
      isOk_iff_of_error_iff fun e => checks_eq_error_iff
    rw [checksOfAll, nodesOfAll, List.findSome?_append, Option.or_eq_some_iff,
      ← checks_eq_error_iff, ← hitem, ← checksOfAll_eq_error_iff, exceptBind_eq_error]
    simp only [exceptBind_eq_error, pure, Except.pure, reduceCtorEq, and_false, exists_false,
      or_false, exists_and_right]

end

end Refinement

/-! ## Constraints -/

namespace Constraint

theorem length_of_checks {a : Constraint} {cs : List Check} (h : a.checks = .ok cs) :
    cs.length = a.checkCount := by
  induction a generalizing cs with
  | plain t => cases h; rfl
  | refined base items ih =>
    obtain ⟨-, ds, es, hd, he, rfl⟩ := checks_refined_eq_ok.1 h
    rw [List.length_append, ih hd, Refinement.checksOfAll_eq_leavesOfAll he, checkCount]
  | sequenceOf element =>
    obtain ⟨c, -, rfl⟩ := checks_sequenceOf_eq_ok.1 h
    rfl
  | other text => cases h

theorem checks_refined_eq_error {base : Constraint} {items : List Refinement} {e : Problem} :
    (refined base items).checks = .error e ↔
      (items = [] ∧ e = .emptyRefinement) ∨
      (items ≠ [] ∧ (base.checks = .error e ∨
        (∃ cs, base.checks = .ok cs) ∧ Refinement.checksOfAll items = .error e)) := by
  rw [checks]
  cases items with
  | nil => simp [eq_comm]
  | cons item items =>
    simp only [List.isEmpty_cons, Bool.false_eq_true, if_false, exceptBind_eq_error, pure,
      Except.pure, reduceCtorEq, and_false, exists_false, or_false, exists_and_right, false_and,
      false_or, ne_eq, not_false_eq_true, true_and]

/-- The number of checks matters only where the element compiles. -/
theorem checks_sequenceOf_eq_error {element : Constraint} {e : Problem} :
    (sequenceOf element).checks = .error e ↔
      element.checks = .error e ∨
      ((∃ cs, element.checks = .ok cs) ∧ element.checkCount ≠ 1 ∧
        e = .elementChecks element element.checkCount) := by
  rw [checks, exceptBind_eq_error]
  refine or_congr_right ⟨?_, ?_⟩
  · rintro ⟨cs, hcs, h⟩
    have hlen := length_of_checks hcs
    split at h
    · cases h
    · rename_i hne
      cases h
      refine ⟨⟨cs, hcs⟩, fun hone => ?_, by rw [hlen]⟩
      obtain ⟨c, rfl⟩ := List.length_eq_one_iff.1 (hlen.trans hone)
      exact hne c rfl
  · rintro ⟨⟨cs, hcs⟩, hone, rfl⟩
    refine ⟨cs, hcs, ?_⟩
    rw [← length_of_checks hcs] at hone ⊢
    split
    · exact absurd rfl hone
    · rfl

theorem checks_eq_error_iff {a : Constraint} {e : Problem} :
    a.checks = .error e ↔ a.firstProblem? = some e := by
  induction a generalizing e with
  | plain t => simp [checks, firstProblem?, nodes, Node.problem?]
  | refined base items ih =>
    have hbase : (∃ cs, base.checks = .ok cs) ↔ base.firstProblem? = none :=
      isOk_iff_of_error_iff fun e => ih
    rw [checks_refined_eq_error, ih, hbase, Refinement.checksOfAll_eq_error_iff, firstProblem?,
      firstProblem?, nodes, List.findSome?_cons, Node.problem?]
    by_cases h : items = []
    · simp [h, eq_comm]
    · simp [h, List.findSome?_append, Option.or_eq_some_iff]
  | sequenceOf element ih =>
    have helement : (∃ cs, element.checks = .ok cs) ↔ element.firstProblem? = none :=
      isOk_iff_of_error_iff fun e => ih
    rw [checks_sequenceOf_eq_error, ih, helement, firstProblem?, firstProblem?, nodes,
      List.findSome?_append, Option.or_eq_some_iff, List.findSome?_singleton, Node.problem?]
    by_cases h : element.checkCount = 1
    · simp [h]
    · simp [h, eq_comm]
  | other text => simp [checks, firstProblem?, nodes, Node.problem?]

theorem isOk_checks_iff_firstProblem? {a : Constraint} :
    (∃ cs, a.checks = .ok cs) ↔ a.firstProblem? = none :=
  isOk_iff_of_error_iff fun _ => checks_eq_error_iff

end Constraint
end CallContract
