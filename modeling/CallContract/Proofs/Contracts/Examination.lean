import CallContract.Contract
import CallContract.Proofs.Binding.Attribution
import CallContract.Proofs.Checks.Elements

/-!
# The order of examination

A call that binds is examined pair by pair, a pair being a bound value and a check of its
parameter. The pairs come parameter by parameter, of each parameter value by value as it holds
them, and of each value check by check along the row (`schedule`). The walk ends at the first pair
that does not pass: what stands behind it is neither looked at nor told of.

**Results.**
* `pairs_table`: what binding returns is examined in this order.
* `examineAll_of_passes`, `examineAll_of_first`: a walk to the end, and one that stops.
* `examine_cases`: the examination of a call that binds is one of the two.
* `exists_first_of_examine_eq_some`: what is reported of such a call.
-/
namespace CallContract
namespace Contract

/-- The pairs of a call in the order of its examination. -/
def schedule (c : Contract) (call : Call) : List (Bound × Check) :=
  c.signature.params.zipIdx.flatMap fun (p, i) =>
    (c.signature.held call (p, i)).flatMap fun b => (c.checksFor i).map fun check => (b, check)

/-- The check of the pair passes on its value. -/
def Passes (pair : Bound × Check) : Prop :=
  pair.2.evaluate pair.1.argument.value = .ok .pass

/-- What is reported of a pair; nothing if it passes. -/
def judgePair (c : Contract) (pair : Bound × Check) : Option Failure :=
  pair.2.judge (c.param pair.1.param) pair.1.argument

/-- The event of making the check of a pair. -/
def checkedPair (c : Contract) (passed : Bool) (pair : Bound × Check) : Event :=
  .checked c.name (c.param pair.1.param) pair.1.argument.source pair.2 passed

/-- The events of a walk that stops at a pair. -/
def stoppedAt (c : Contract) (before : List (Bound × Check)) (pair : Bound × Check)
    (failure : Failure) : List Event :=
  before.map (c.checkedPair true) ++
    [c.checkedPair false pair, .violated c.name (c.param pair.1.param) failure]

theorem judgePair_eq_none {c : Contract} {pair : Bound × Check} :
    c.judgePair pair = none ↔ Passes pair := Check.judge_eq_none

theorem pairs_table (c : Contract) (call : Call) :
    c.pairs (c.signature.table call) = c.schedule call := by
  rw [pairs, Signature.table, List.flatMap_assoc, schedule]
  refine List.flatMap_congr fun x _ => List.flatMap_congr fun b hb => ?_
  rw [Signature.param_of_mem_held hb]

theorem mem_pairs {c : Contract} {bound : List Bound} {b : Bound} {check : Check} :
    (b, check) ∈ c.pairs bound ↔ b ∈ bound ∧ check ∈ c.checksFor b.param := by
  simp only [pairs, List.mem_flatMap, List.mem_map, Prod.mk.injEq]
  refine ⟨?_, ?_⟩
  · rintro ⟨_, hb, _, hc, rfl, rfl⟩
    exact ⟨hb, hc⟩
  · rintro ⟨hb, hc⟩
    exact ⟨b, hb, check, hc, rfl, rfl⟩

theorem mem_schedule {c : Contract} {call : Call} {b : Bound} {check : Check} :
    (b, check) ∈ c.schedule call ↔
      b ∈ c.signature.table call ∧ check ∈ c.checksFor b.param := by
  rw [← pairs_table, mem_pairs]

/-! ## Walks -/

theorem examineAll_cons (c : Contract) (pair : Bound × Check) (rest : List (Bound × Check)) :
    c.examineAll (pair :: rest) =
      match c.judgePair pair with
      | none => (c.checkedPair true pair :: (c.examineAll rest).1, (c.examineAll rest).2)
      | some failure => (c.stoppedAt [] pair failure, some failure) := rfl

theorem examineAll_of_passes {c : Contract} {pairs : List (Bound × Check)}
    (h : ∀ pair ∈ pairs, Passes pair) :
    c.examineAll pairs = (pairs.map (c.checkedPair true), none) := by
  induction pairs with
  | nil => rfl
  | cons pair rest ih =>
    obtain ⟨hp, hrest⟩ := List.forall_mem_cons.1 h
    rw [examineAll_cons, judgePair_eq_none.2 hp, ih hrest]
    rfl

/-- Nothing behind the first pair that does not pass has a part in the walk. -/
theorem examineAll_of_first {c : Contract} {before after : List (Bound × Check)}
    {pair : Bound × Check} {failure : Failure} (hb : ∀ q ∈ before, Passes q)
    (h : c.judgePair pair = some failure) :
    c.examineAll (before ++ pair :: after) = (c.stoppedAt before pair failure, some failure) := by
  induction before with
  | nil => rw [List.nil_append, examineAll_cons, h]
  | cons q before ih =>
    obtain ⟨hq, hrest⟩ := List.forall_mem_cons.1 hb
    rw [List.cons_append, examineAll_cons, judgePair_eq_none.2 hq, ih hrest]
    rfl

/-- The pairs all pass, or there is a first one that does not. -/
theorem passes_or_first (c : Contract) (pairs : List (Bound × Check)) :
    (∀ pair ∈ pairs, Passes pair) ∨
    ∃ before pair after failure, pairs = before ++ pair :: after ∧ (∀ q ∈ before, Passes q) ∧
      c.judgePair pair = some failure := by
  rcases forall_mem_or_first Passes pairs with h | ⟨before, pair, after, he, hb, hp⟩
  · exact .inl h
  · obtain ⟨failure, hj⟩ := Option.ne_none_iff_exists'.1 (mt judgePair_eq_none.1 hp)
    exact .inr ⟨before, pair, after, failure, he, hb, hj⟩

/-! ## Examination -/

theorem examine_of_rejected {c : Contract} {call : Call} {rejection : Rejection}
    (h : c.signature.bind call = .error rejection) :
    c.examine call =
      ([.callRejected c.name rejection], some (.bindingRejection rejection)) := by
  rw [examine, h]

theorem examine_of_bound {c : Contract} {call : Call} {bound : List Bound}
    (h : c.signature.bind call = .ok bound) :
    c.examine call = c.examineAll (c.schedule call) := by
  rw [examine, h, ← pairs_table, (Signature.bind_eq_ok_iff.1 h).2]

theorem examine_of_passes {c : Contract} {call : Call} {bound : List Bound}
    (h : c.signature.bind call = .ok bound) (hp : ∀ pair ∈ c.schedule call, Passes pair) :
    c.examine call = ((c.schedule call).map (c.checkedPair true), none) := by
  rw [examine_of_bound h, examineAll_of_passes hp]

theorem examine_of_first {c : Contract} {call : Call} {bound : List Bound}
    (h : c.signature.bind call = .ok bound) {before after : List (Bound × Check)}
    {pair : Bound × Check} {failure : Failure} (he : c.schedule call = before ++ pair :: after)
    (hb : ∀ q ∈ before, Passes q) (hj : c.judgePair pair = some failure) :
    c.examine call = (c.stoppedAt before pair failure, some failure) := by
  rw [examine_of_bound h, he, examineAll_of_first hb hj]

/-- A call that binds passes all its checks, or fails at the first pair that does not pass. -/
theorem examine_cases (c : Contract) {call : Call} {bound : List Bound}
    (h : c.signature.bind call = .ok bound) :
    ((∀ pair ∈ c.schedule call, Passes pair) ∧
      c.examine call = ((c.schedule call).map (c.checkedPair true), none)) ∨
    ∃ before pair after failure, c.schedule call = before ++ pair :: after ∧
      (∀ q ∈ before, Passes q) ∧ c.judgePair pair = some failure ∧
      c.examine call = (c.stoppedAt before pair failure, some failure) := by
  rcases c.passes_or_first (c.schedule call) with hp | ⟨before, pair, after, failure, he, hb, hj⟩
  · exact .inl ⟨hp, examine_of_passes h hp⟩
  · exact .inr ⟨before, pair, after, failure, he, hb, hj, examine_of_first h he hb hj⟩

/-- A report of a call that binds is the one of the first pair that does not pass. -/
theorem exists_first_of_examine_eq_some {c : Contract} {call : Call} {bound : List Bound}
    {failure : Failure} (h : c.signature.bind call = .ok bound)
    (he : (c.examine call).2 = some failure) :
    ∃ before pair after, c.schedule call = before ++ pair :: after ∧
      (∀ q ∈ before, Passes q) ∧ c.judgePair pair = some failure := by
  rcases c.examine_cases h with ⟨-, hw⟩ | ⟨before, pair, after, reported, hs, hb, hj, hw⟩
  · rw [hw] at he
    cases he
  · rw [hw] at he
    cases he
    exact ⟨before, pair, after, hs, hb, hj⟩

end Contract
end CallContract
