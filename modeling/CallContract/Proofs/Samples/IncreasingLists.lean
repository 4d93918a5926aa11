import CallContract.Proofs.Constraints.Meaning
import CallContract.Samples.Constraints
import CallContract.Samples.Generator
import Mathlib.Algebra.Group.Nat.Defs

/-!
# Lists made to grow

A generated list holds the running sums of drawn steps, in 64-bit integers. Of the draws nothing is
known but their range: a sum is at most 10 above the one before it, so with up to 10^17 of them the
end of the integers is never reached.

**Overflow.** A second generator (`increasingList?`) makes the same draws and stops with nothing at
the first sum out of range. It stops nowhere and makes the same list, so no sum is out of range.

**Results.**
* `climb_step`: what one step does in both generators.
* `climb?_eq`, `isClimb_climb`: a run of steps, by induction on their number.
* `passedBy_iff_admits`: passing all checks of a constraint, and its meaning.
* `increasingList_climbs`: the generated list, and the checks that it passes.
-/
namespace CallContract

/-- The constraint compiles, and the value passes all of its checks. -/
def Constraint.PassedBy (a : Constraint) (v : Value) : Prop :=
  ∃ cs, a.checks = .ok cs ∧ ∀ c ∈ cs, c.evaluate v = .ok .pass

theorem Constraint.passedBy_iff_admits {a : Constraint} {cs : List Check} (h : a.checks = .ok cs)
    (v : Value) : a.PassedBy v ↔ a.Admits v := by
  rw [← checks_pass_iff_admits h v]
  refine ⟨?_, ?_⟩
  · intro hpass
    obtain ⟨ds, hds, hpass⟩ := hpass
    cases h.symm.trans hds
    exact hpass
  · intro hpass
    exact ⟨cs, h, hpass⟩

namespace Samples

/-- So many integers, the first of them between the bounds, and each other one 1 to 10 above the one
before it. -/
structure IsClimb (low high : Int) (n : Nat) (ms : List Int64) : Prop where
  length : ms.length = n
  first : ∀ m ∈ ms.head?, low ≤ m.toInt ∧ m.toInt ≤ high
  steps : ms.IsChain fun m k => m.toInt + 1 ≤ k.toInt ∧ k.toInt ≤ m.toInt + 10

namespace Generator

variable {σ : Type} [RandomSource σ]

/-! ## Sums in range -/

/-- The sum of two integers, unless it is out of range. -/
def add? (m k : Int64) : Option Int64 :=
  if Int64.minValue.toInt ≤ m.toInt + k.toInt ∧ m.toInt + k.toInt ≤ Int64.maxValue.toInt then
    some (m + k)
  else none

/-- A generator that stops nowhere, among those that may. -/
def unstopped {α : Type} (g : StateM σ α) : StateT σ Option α := fun s => some (g.run s)

/-- Climbs as `climb` does, but stops at a sum out of range. The last sum counts, too, although no
item shows it. -/
def climb? : Nat → Int64 → StateT σ Option (List Value)
  | 0, _ => return []
  | n + 1, current => do
    let step ← unstopped (draw 1 10)
    let next ← StateT.lift (add? current (Int64.ofInt step))
    let rest ← climb? n next
    return .int current :: rest

def increasingList? (n : Nat) : StateT σ Option Value := do
  let start ← unstopped (draw (-1000) 0)
  let items ← climb? n (Int64.ofInt start)
  return .list items

/-- The answer is the exact sum, and there is one whenever that is a 64-bit integer. -/
theorem add?_eq_some_iff {m k sum : Int64} :
    add? m k = some sum ↔ sum.toInt = m.toInt + k.toInt := by
  have hmax : Int64.maxValue.toInt = 2 ^ 63 - 1 := by decide
  have hmin : Int64.minValue.toInt = -2 ^ 63 := by decide
  unfold add?
  split
  · have hadd : (m + k).toInt = m.toInt + k.toInt := by
      rw [Int64.toInt_add]
      apply Int.bmod_eq_of_le <;> omega
    rw [Option.some.injEq, ← Int64.toInt_inj, hadd, eq_comm]
  · have hlow := Int64.le_toInt sum
    have hhigh := Int64.toInt_lt sum
    simp only [reduceCtorEq, false_iff]
    omega

/-- A drawn step is added in full. -/
theorem add?_step {m : Int64} {step : Int} (hl : 1 ≤ step) (hh : step ≤ 10)
    (hm : m.toInt + 10 ≤ Int64.maxValue.toInt) :
    add? m (Int64.ofInt step) = some (m + Int64.ofInt step) ∧
      (m + Int64.ofInt step).toInt = m.toInt + step := by
  have hlow := Int64.le_toInt m
  have hmin : Int64.minValue.toInt = -2 ^ 63 := by decide
  have hstep : (Int64.ofInt step).toInt = step := Int64.toInt_ofInt_of_le (by omega) (by omega)
  have hadd : add? m (Int64.ofInt step) = some (m + Int64.ofInt step) := by
    unfold add?
    apply if_pos
    omega
  refine ⟨hadd, ?_⟩
  rw [add?_eq_some_iff.1 hadd, hstep]

/-! ## Steps -/

/-- One step: the next integer is 1 to 10 above this one, and both generators go on with it. -/
theorem climb_step (n : Nat) {m : Int64} (s : σ) (hm : m.toInt + 10 ≤ Int64.maxValue.toInt) :
    ∃ next s', (m.toInt + 1 ≤ next.toInt ∧ next.toInt ≤ m.toInt + 10) ∧
      (climb (n + 1) m).run s = (.int m :: ((climb n next).run s').1, ((climb n next).run s').2) ∧
      (climb? (n + 1) m).run s =
        ((climb? n next).run s').map fun made => (.int m :: made.1, made.2) := by
  obtain ⟨hl, hh⟩ := RandomSource.draw_mem s (by decide : (1 : Int) ≤ 10)
  obtain ⟨hadd, hsum⟩ := add?_step hl hh hm
  refine ⟨m + Int64.ofInt (RandomSource.draw 1 10 s).1, (RandomSource.draw 1 10 s).2, ?_, rfl, ?_⟩
  · omega
  · have hdraw : (unstopped (draw 1 10)).run s = some (RandomSource.draw 1 10 s) := rfl
    simp [climb?, hdraw, hadd]

/-- As long as the steps left cannot lead out of range, both generators make the same. -/
theorem climb?_eq {n : Nat} {m : Int64} (h : m.toInt + 10 * n ≤ Int64.maxValue.toInt) (s : σ) :
    (climb? n m).run s = some ((climb n m).run s) := by
  induction n generalizing m s with
  | zero => rfl
  | succ n ih =>
    -- One step takes at most 10 of the room that `h` leaves to each of the steps.
    obtain ⟨next, s', ⟨-, hh⟩, hrun, hrun?⟩ := climb_step n (m := m) s (by omega)
    rw [hrun, hrun?, ih (by omega) s', Option.map_some]

theorem isClimb_climb {n : Nat} {m : Int64} (h : m.toInt + 10 * n ≤ Int64.maxValue.toInt) (s : σ) :
    ∃ ms, ((climb n m).run s).1 = ms.map .int ∧ IsClimb m.toInt m.toInt n ms := by
  induction n generalizing m s with
  | zero => exact ⟨[], rfl, rfl, by simp, .nil⟩
  | succ n ih =>
    obtain ⟨next, s', ⟨hl, hh⟩, hrun, -⟩ := climb_step n (m := m) s (by omega)
    obtain ⟨ms, hms, hlength, hfirst, hsteps⟩ := ih (m := next) (by omega) s'
    refine ⟨m :: ms, ?_, ?_, ?_, ?_⟩
    · rw [hrun, hms, List.map_cons]
    · rw [List.length_cons, hlength]
    · simp
    · -- The rest begins with the next integer, if it begins with any.
      rw [List.isChain_cons]
      refine ⟨?_, hsteps⟩
      intro k hk
      have := hfirst k hk
      omega

/-! ## Whole lists -/

/-- The start is drawn, and both generators climb from it. -/
theorem increasingList_start (n : Nat) (s : σ) :
    ∃ start s', (-1000 ≤ start.toInt ∧ start.toInt ≤ 0) ∧
      (increasingList n).run s = (.list ((climb n start).run s').1, ((climb n start).run s').2) ∧
      (increasingList? n).run s =
        ((climb? n start).run s').map fun made => (.list made.1, made.2) := by
  obtain ⟨hl, hh⟩ := RandomSource.draw_mem s (by decide : (-1000 : Int) ≤ 0)
  refine ⟨Int64.ofInt (RandomSource.draw (-1000) 0 s).1, (RandomSource.draw (-1000) 0 s).2, ?_, rfl,
    ?_⟩
  · rw [Int64.toInt_ofInt_of_le (by omega) (by omega)]
    exact ⟨hl, hh⟩
  · have hdraw : (unstopped (draw (-1000) 0)).run s = some (RandomSource.draw (-1000) 0 s) := rfl
    simp [increasingList?, hdraw]

theorem increasingList?_eq {n : Nat} (h : 10 * n ≤ Int64.maxValue.toInt) (s : σ) :
    (increasingList? n).run s = some ((increasingList n).run s) := by
  obtain ⟨start, s', ⟨-, hh⟩, hrun, hrun?⟩ := increasingList_start n s
  rw [hrun, hrun?, climb?_eq (by omega) s', Option.map_some]

theorem isClimb_increasingList {n : Nat} (h : 10 * n ≤ Int64.maxValue.toInt) (s : σ) :
    ∃ ms, ((increasingList n).run s).1 = .list (ms.map .int) ∧ IsClimb (-1000) 0 n ms := by
  obtain ⟨start, s', ⟨hl, hh⟩, hrun, -⟩ := increasingList_start n s
  obtain ⟨ms, hms, hlength, hfirst, hsteps⟩ := isClimb_climb (n := n) (m := start) (by omega) s'
  refine ⟨ms, ?_, hlength, ?_, hsteps⟩
  · rw [hrun, hms]
  · intro m hm
    have := hfirst m hm
    omega

end Generator

/-! ## Checks -/

variable {low high : Int} {n : Nat} {ms : List Int64}

theorem IsClimb.pairwise_rises (h : IsClimb low high n ms) :
    (ms.map Value.int).Pairwise Check.Rises := by
  rw [← List.isChain_iff_pairwise, List.isChain_map]
  apply h.steps.imp
  intro m k hk
  apply Value.gt?_eq_some_true_iff.2
  apply Value.Exceeds.number rfl rfl
  rw [Number.compare?_ofInt, Option.some.injEq, Int.compare_eq_gt]
  omega

theorem IsClimb.holds_monotonicIncreasing (h : IsClimb low high n ms) :
    Check.monotonicIncreasing.Holds (.list (ms.map .int)) :=
  ⟨ms.map .int, rfl, .inr ⟨rfl, h.pairwise_rises⟩⟩

theorem passedBy_sequenceOfInt (ms : List Int64) :
    sequenceOfInt.PassedBy (.list (ms.map .int)) := by
  apply (Constraint.passedBy_iff_admits rfl _).2
  refine ⟨ms.map .int, rfl, ?_⟩
  intro w hw
  obtain ⟨m, -, rfl⟩ := List.mem_map.1 hw
  exact .int m

theorem IsClimb.passedBy_nonEmptyIncreasingList_iff (h : IsClimb low high n ms) :
    nonEmptyIncreasingList.PassedBy (.list (ms.map .int)) ↔ 1 ≤ n := by
  have hlist : Value.IsOf (.list (ms.map .int)) .list := .list _
  have hnonEmpty : Check.nonEmpty.Holds (.list (ms.map .int)) ↔ 1 ≤ n := by
    simp [Check.Holds, Value.elements?, ← h.length, Nat.one_le_iff_ne_zero]
  rw [Constraint.passedBy_iff_admits rfl]
  simp [nonEmptyIncreasingList, Constraint.Admits, Refinement.AllHold, Refinement.Holds,
    Check.Kind.check?, hlist, hnonEmpty, h.holds_monotonicIncreasing]

namespace Generator

variable {σ : Type} [RandomSource σ]

/-- Whatever is drawn, a list of up to 10^17 integers is made as asked, and no sum on the way leaves
the range of 64 bits. It increases, it is a sequence of integers, and if it is not empty it is a
non-empty list that increases. -/
theorem increasingList_climbs (n : Nat) (hn : n ≤ 10 ^ 17) (s : σ) :
    (increasingList? n).run s = some ((increasingList n).run s) ∧
    ∃ ms : List Int64, ((increasingList n).run s).1 = .list (ms.map .int) ∧
      IsClimb (-1000) 0 n ms ∧
      Check.monotonicIncreasing.evaluate (.list (ms.map .int)) = .ok .pass ∧
      sequenceOfInt.PassedBy (.list (ms.map .int)) ∧
      (nonEmptyIncreasingList.PassedBy (.list (ms.map .int)) ↔ 1 ≤ n) := by
  have hmax : Int64.maxValue.toInt = 2 ^ 63 - 1 := by decide
  have hrange : 10 * n ≤ Int64.maxValue.toInt := by omega
  obtain ⟨ms, hms, hclimb⟩ := isClimb_increasingList hrange s
  refine ⟨increasingList?_eq hrange s, ms, hms, hclimb, ?_, ?_, ?_⟩
  · exact Check.evaluate_eq_pass.2 hclimb.holds_monotonicIncreasing
  · exact passedBy_sequenceOfInt ms
  · exact hclimb.passedBy_nonEmptyIncreasingList_iff

/-- Three integers drawn from words, all of them below zero. -/
theorem three_integers_climb :
    let drawn := (increasingList 3).run (⟨7⟩ : Words)
    let ms : List Int64 := [-690, -685, -678]
    3 ≤ 10 ^ 17 ∧ (increasingList? 3).run ⟨7⟩ = some drawn ∧ drawn.1 = .list (ms.map .int) ∧
      IsClimb (-1000) 0 3 ms ∧
      Check.monotonicIncreasing.evaluate (.list (ms.map .int)) = .ok .pass ∧
      sequenceOfInt.PassedBy (.list (ms.map .int)) ∧
      nonEmptyIncreasingList.PassedBy (.list (ms.map .int)) := by
  intro drawn ms
  have hn : 3 ≤ 10 ^ 17 := by decide
  have hdrawn : drawn.1 = .list (ms.map .int) := rfl
  obtain ⟨hsums, ks, hks, hclimb, hgrows, hints, hnonEmpty⟩ :=
    increasingList_climbs 3 hn (⟨7⟩ : Words)
  have hmap : ks.map Value.int = ms.map Value.int := Value.list.inj (hks.symm.trans hdrawn)
  have hsame : ks = ms := (List.map_inj_right fun _ _ => Value.int.inj).1 hmap
  subst hsame
  exact ⟨hn, hsums, hdrawn, hclimb, hgrows, hints, hnonEmpty.2 (by decide)⟩

end Generator
end Samples
end CallContract
