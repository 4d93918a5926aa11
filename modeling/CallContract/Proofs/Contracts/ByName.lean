import CallContract.Proofs.Binding.ByName
import CallContract.Proofs.Contracts.Examination

/-!
# Examination and the sources of arguments

The source of an argument has no part in the checks made on it: it is only reported. So where two
calls bind alike but for sources, their examinations report alike but for these, and in particular
where an argument is given by name instead of by position.

**Results.**
* `examine_of_bind_map`: calls that bind alike but for sources are examined alike.
* `position_or_name_indifferent`: an argument by position and the same argument by name.
-/
namespace CallContract

/-! ## Reports about renamed arguments -/

/-- The failure with another argument in the place of the one that it is about. -/
def Failure.mapArgument (f : Argument → Argument) : Failure → Failure
  | .checkExecution param arg check operation value =>
    .checkExecution param (f arg) check operation value
  | .typeViolation param arg check declared received =>
    .typeViolation param (f arg) check declared received
  | .valueViolation param arg check => .valueViolation param (f arg) check
  | .elementViolation param arg check index element =>
    .elementViolation param (f arg) check index element
  | e => e

theorem Contract.pairs_map (c : Contract) (f : Argument → Argument) (bound : List Bound) :
    c.pairs (bound.map (Bound.mapArgument f)) =
      (c.pairs bound).map fun pair => (pair.1.mapArgument f, pair.2) := by
  rw [pairs, pairs, List.flatMap_map, List.map_flatMap]
  refine List.flatMap_congr fun b _ => ?_
  rw [List.map_map]
  rfl

section

variable {f : Argument → Argument} (hf : ∀ a, (f a).value = a.value)
include hf

theorem Check.violation_map (c : Check) (param : ParamRef) (arg : Argument)
    (failing : Option (Nat × Value)) :
    c.violation param (f arg) failing = (c.violation param arg failing).mapArgument f := by
  unfold violation
  split
  · rw [hf]
    rfl
  · rfl
  · rfl

theorem Check.judge_map (c : Check) (param : ParamRef) (arg : Argument) :
    c.judge param (f arg) = (c.judge param arg).map (Failure.mapArgument f) := by
  rw [judge, judge, hf]
  split
  · rfl
  · rw [violation_map hf]
    rfl
  · rw [violation_map hf]
    rfl
  · rfl

namespace Contract

theorem examineAll_map (c : Contract) (pairs : List (Bound × Check)) :
    (c.examineAll (pairs.map fun pair => (pair.1.mapArgument f, pair.2))).2 =
      (c.examineAll pairs).2.map (Failure.mapArgument f) := by
  induction pairs with
  | nil => rfl
  | cons pair rest ih =>
    have hj : c.judgePair (pair.1.mapArgument f, pair.2) =
        (c.judgePair pair).map (Failure.mapArgument f) := Check.judge_map hf ..
    rw [List.map_cons, examineAll_cons, examineAll_cons, hj]
    cases c.judgePair pair with
    | none => exact ih
    | some failure => rfl

/-- Calls that bind alike but for the sources of arguments are examined alike but for these. -/
theorem examine_of_bind_map {c : Contract} {call call' : Call}
    (h : c.signature.bind call' =
      (c.signature.bind call).map (List.map (Bound.mapArgument f))) :
    (c.examine call').2 = (c.examine call).2.map (Failure.mapArgument f) := by
  rw [examine, examine, h]
  cases c.signature.bind call with
  | error rejection => rfl
  | ok bound =>
    change (c.examineAll (c.pairs (bound.map (Bound.mapArgument f)))).2 = _
    rw [pairs_map, examineAll_map hf]

end Contract

end

/-! ## By position or by name -/

/-- A call and the one that gives its last positional argument by name are rejected alike, or bound
alike but for the source of that argument, which its parameter alone holds; and every contract of
the signature reports of them alike but for that source. The same holds of any number of arguments
given by name, one by one. -/
theorem Signature.position_or_name_indifferent (s : Signature) :
    (∀ (p : Param) (v : Value) (call call' : Call), s.GivesByName p v call call' →
      s.bind call' = (s.bind call).map
        (List.map (Bound.mapArgument (Argument.underName call'.args.length p.name))) ∧
      (∀ bound, s.bind call = .ok bound →
        boundTo bound call'.args.length =
          [⟨call'.args.length, .positional call'.args.length, v⟩] ∧
        ∀ b ∈ bound, b.argument.source = .positional call'.args.length →
          b.param = call'.args.length) ∧
      ∀ c : Contract, c.signature = s → (c.examine call').2 = (c.examine call).2.map
        (Failure.mapArgument (Argument.underName call'.args.length p.name))) ∧
    (∀ call call' : Call, s.Named call call' →
      s.bind call' = (s.bind call).map
        (List.map (Bound.mapArgument (s.underNameFrom call'.args.length))) ∧
      ∀ c : Contract, c.signature = s → (c.examine call').2 = (c.examine call).2.map
        (Failure.mapArgument (s.underNameFrom call'.args.length))) := by
  refine ⟨fun p v call call' h =>
    ⟨h.bind_eq, fun _ hb => ⟨h.boundTo_eq hb, fun _ => h.param_of_source hb⟩, ?_⟩,
    fun call call' h => ⟨bind_of_named h, ?_⟩⟩
  · rintro c rfl
    exact Contract.examine_of_bind_map (Argument.underName_value _ _) h.bind_eq
  · rintro c rfl
    exact Contract.examine_of_bind_map (c.signature.underNameFrom_value _) (bind_of_named h)

/-- An empty text is refused as the argument of its parameter, by position and by name, and also
where the integer in front of it is given by name behind all other keywords. -/
theorem Signature.empty_text_refused_by_name :
    let a : Param := ⟨"a", .positionalOrKeyword, none, some (.plain .int)⟩
    let b : Param :=
      ⟨"b", .positionalOrKeyword, none, some (.refined (.plain .str) [.kind .nonEmpty])⟩
    let call : Call := ⟨[.int 1, .str ""], [("x", .none)]⟩
    let call' : Call := ⟨[.int 1], [("b", .str ""), ("x", .none)]⟩
    let call'' : Call := ⟨[], [("b", .str ""), ("x", .none), ("a", .int 1)]⟩
    ∃ c, Contract.ofParams "f" [a, b, ⟨"options", .varKeyword, none, none⟩] = .ok c ∧
      (c.examine call).2 = some (.valueViolation ⟨1, "b"⟩ ⟨.positional 1, .str ""⟩ .nonEmpty) ∧
      (c.examine call').2 = some (.valueViolation ⟨1, "b"⟩ ⟨.keyword "b", .str ""⟩ .nonEmpty) ∧
      (c.examine call'').2 = some (.valueViolation ⟨1, "b"⟩ ⟨.keyword "b", .str ""⟩ .nonEmpty) := by
  intro a b call call' call''
  refine ⟨_, rfl, rfl, ?_, ?_⟩
  · refine (((position_or_name_indifferent _).1 b (.str "") call call' ?_).2.2 _ rfl).trans rfl
    exact ⟨rfl, rfl, by decide, rfl, [], [("x", .none)], rfl, rfl⟩
  · refine (((position_or_name_indifferent _).2 call call'' (.tail (b := call') (.single ?_) ?_)).2
      _ rfl).trans rfl
    · exact ⟨b, .str "", rfl, rfl, by decide, rfl, [], [("x", .none)], rfl, rfl⟩
    · exact ⟨a, .int 1, rfl, rfl, by decide, rfl, [("b", .str ""), ("x", .none)], [], rfl, rfl⟩

end CallContract
