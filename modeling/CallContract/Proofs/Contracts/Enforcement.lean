import CallContract.Guarded
import CallContract.Proofs.Constraints.Meaning
import CallContract.Proofs.Contracts.Rows
import CallContract.Samples.Constraints

/-!
# Enforced contracts

A registered function under the initial policy enforces its contract. What the contract asks of a
call is said without checks: it binds, and each bound value is one that the constraint of its
parameter admits (`Signature.Admits`).

**Runs of the body.** A body may have any effect: it lives in any monad. That it runs once, on the
call as it came, is an equation between computations (`Forwards`), and that it does not run is one,
too (`Refuses`). No call is both forwarded and refused.

**Results.**
* `examine_eq_none_iff_admits`: nothing is reported exactly of the calls that the contract admits.
* `forwards_iff_admits`: exactly these calls reach the body; all others are refused.
-/
namespace CallContract

/-- The call binds, and each bound value is admitted by the constraint of its parameter, if the
parameter has one. -/
def Signature.Admits (s : Signature) (call : Call) : Prop :=
  ∃ bound, s.bind call = .ok bound ∧
    ∀ b ∈ bound, ∀ p, s.params[b.param]? = some p → ∀ a, p.constraint = some a →
      a.Admits b.argument.value

namespace Contract

/-- All checks of a row pass on exactly the values that the parameter's constraint admits. -/
theorem forall_checksFor_pass_iff (c : Contract) (index : Nat) (v : Value) :
    (∀ check ∈ c.checksFor index, check.evaluate v = .ok .pass) ↔
      ∀ p, c.signature.params[index]? = some p → ∀ a, p.constraint = some a → a.Admits v := by
  rcases c.checksFor_cases index with ⟨hr, hn⟩ | ⟨p, a, hp, ha, hr⟩
  · rw [hr]
    simp only [List.not_mem_nil, false_implies, implies_true, true_iff]
    intro p hp a ha
    rw [hn p hp] at ha
    cases ha
  · rw [Constraint.checks_pass_iff_admits hr]
    simp [hp, ha]

/-- Examination reports nothing exactly when the call is admitted. -/
theorem examine_eq_none_iff_admits (c : Contract) (call : Call) :
    (c.examine call).2 = none ↔ c.signature.Admits call := by
  rw [examine, Signature.Admits]
  cases c.signature.bind call with
  | error rejection => simp
  | ok bound =>
    simp only [examineAll_eq_none, pairs, List.mem_flatMap, List.mem_map, forall_exists_index,
      and_imp, Except.ok.injEq, exists_eq_left']
    refine ⟨?_, ?_⟩
    · intro h b hb
      exact (forall_checksFor_pass_iff c b.param _).1 fun check hc => h _ b hb check hc rfl
    · rintro h _ b hb check hc rfl
      exact (forall_checksFor_pass_iff c b.param _).2 (h b hb) check hc

theorem signature_ofParams {name : String} {params : List Param} {c : Contract}
    (h : ofParams name params = .ok c) : Signature.ofParams params = .ok c.signature := by
  rw [ofParams] at h
  split at h
  · cases h
  · rename_i s hs
    split at h
    · cases h
    · cases h; exact hs

end Contract

/-! ## Runs of the body -/

namespace Guarded

/-- The body runs once, on the call as it came, and its result is returned. -/
def Forwards (g : Guarded) (c : Call) : Prop :=
  ∃ events, ∀ (m : Type → Type) [Monad m] (α : Type) (body : Call → m α),
    g.call body c = do
      let result ← body c
      return (events, .ok result)

/-- The body does not run, and a failure is returned. -/
def Refuses (g : Guarded) (c : Call) : Prop :=
  ∃ events failure, ∀ (m : Type → Type) [Monad m] (α : Type) (body : Call → m α),
    g.call body c = pure (events, .error failure)

theorem not_forwards_and_refuses (g : Guarded) (c : Call) : ¬ (g.Forwards c ∧ g.Refuses c) := by
  intro h'
  obtain ⟨⟨events, hf⟩, events', failure, hr⟩ := h'
  have := (hf Id Call id).symm.trans (hr Id Call id)
  cases congrArg Prod.snd this

theorem forwards_of_decide {g : Guarded} {c : Call} (h : (g.decide c).2 = none) :
    g.Forwards c := by
  refine ⟨(g.decide c).1, fun m _ α body => ?_⟩
  rw [call]
  split
  · rename_i heq
    rw [heq] at h
    cases h
  · rename_i heq
    rw [heq]

theorem refuses_of_decide {g : Guarded} {c : Call} {failure : Failure}
    (h : (g.decide c).2 = some failure) : g.Refuses c :=
  ⟨(g.decide c).1, failure, fun _ _ _ _ => call_of_refused h⟩

theorem forwards_iff_decide (g : Guarded) (c : Call) : g.Forwards c ↔ (g.decide c).2 = none := by
  refine ⟨fun hf => ?_, forwards_of_decide⟩
  cases h : (g.decide c).2 with
  | none => rfl
  | some failure => exact absurd ⟨hf, refuses_of_decide h⟩ (not_forwards_and_refuses g c)

theorem refuses_iff_not_forwards (g : Guarded) (c : Call) : g.Refuses c ↔ ¬ g.Forwards c := by
  refine ⟨fun hr hf => not_forwards_and_refuses g c ⟨hf, hr⟩, fun h => ?_⟩
  cases hd : (g.decide c).2 with
  | none => exact absurd (forwards_of_decide hd) h
  | some failure => exact refuses_of_decide hd

theorem register_eq_ok {name : String} {params : List Param} {g : Guarded}
    (h : register name params = .ok g) :
    Signature.ofParams params = .ok g.contract.signature ∧ g.mode = .enforce := by
  rw [register] at h
  split at h
  · cases h
  · rename_i contract hc
    cases h
    exact ⟨Contract.signature_ofParams hc, rfl⟩

/-- A registered function runs its body on exactly the calls that bind and whose bound values are
in the meaning of the declared constraints; every other call is refused. -/
theorem forwards_iff_admits {name : String} {params : List Param} {g : Guarded}
    (h : register name params = .ok g) (c : Call) :
    ∃ s, Signature.ofParams params = .ok s ∧
      (g.Forwards c ↔ s.Admits c) ∧ (g.Refuses c ↔ ¬ s.Admits c) := by
  obtain ⟨hs, hm⟩ := register_eq_ok h
  have hf : g.Forwards c ↔ g.contract.signature.Admits c := by
    rw [forwards_iff_decide, decide_enforce hm, Contract.examine_eq_none_iff_admits]
  exact ⟨_, hs, hf, (refuses_iff_not_forwards g c).trans (not_congr hf)⟩

/-- A list that grows from a truth value to an integer reaches the body, an empty one does not. -/
theorem growing_list_forwarded :
    ∃ g, register "f" [⟨"xs", .positionalOrKeyword, none, some Samples.nonEmptyIncreasingList⟩]
        = .ok g ∧
      g.Forwards ⟨[.list [.bool true, .int 2]], []⟩ ∧ g.Refuses ⟨[.list []], []⟩ := by
  let params : List Param :=
    [⟨"xs", .positionalOrKeyword, none, some Samples.nonEmptyIncreasingList⟩]
  have hreg : ∃ g, register "f" params = .ok g := ⟨_, rfl⟩
  obtain ⟨g, hg⟩ := hreg
  refine ⟨g, hg, ?_, ?_⟩
  · obtain ⟨s, hs, hf, -⟩ := forwards_iff_admits hg ⟨[.list [.bool true, .int 2]], []⟩
    cases hs
    refine hf.2 ⟨[⟨0, .positional 0, .list [.bool true, .int 2]⟩], rfl, ?_⟩
    intro b hb p hp a ha
    cases List.mem_singleton.1 hb
    cases hp
    cases ha
    refine ⟨.list _, ⟨⟨_, rfl, by simp⟩, ?_⟩, trivial⟩
    refine ⟨⟨_, rfl, _, rfl, .inr ⟨rfl, ?_⟩⟩, trivial⟩
    refine List.pairwise_pair.2 (Value.gt?_eq_some_true_iff.2 (.number rfl rfl ?_))
    rw [Number.compare?_ofInt]
    decide
  · obtain ⟨s, hs, -, hr⟩ := forwards_iff_admits hg ⟨[.list []], []⟩
    cases hs
    refine hr.2 ?_
    intro h'
    obtain ⟨bound, hb, h⟩ := h'
    cases hb
    obtain ⟨-, ⟨⟨items, hi, hne⟩, -⟩, -⟩ := h _ (List.mem_singleton_self _) _ rfl _ rfl
    cases hi
    exact hne rfl

end Guarded
end CallContract
