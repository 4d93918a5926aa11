import CallContract.Proofs.Constraints.Problems
import CallContract.Proofs.Contracts.Rows
import CallContract.Proofs.Sessions.Runs
import CallContract.Proofs.Signatures.Declarable
import Mathlib.Algebra.GroupWithZero.Nat

/-!
# Registration

A function is registered if its parameters make a signature and each constraint compiles. Two levels
of report are told apart. A defect of the signature is reported whatever the constraints are; and of
several constraints that do not compile the first one is named as a whole, with the problem at its
first node that has one. What stands behind that parameter is not looked at.

**Results.**
* `firstDefect_unconstrained`: constraints have no part in the defects of a parameter list.
* `compileRows_eq_error_iff`: the parameter that is blamed.
* `register_reports_first_problem`: which registrations fail, what they report, and what the others
  keep.
-/
namespace CallContract

/-! ## Signatures and constraints -/

/-- The parameter as it is declared without a constraint. -/
def Param.unconstrained (p : Param) : Param := { p with constraint := none }

namespace Signature

theorem defectAfter_unconstrained (before : List Param) (p : Param) :
    defectAfter (before.map Param.unconstrained) p.unconstrained = defectAfter before p := by
  have hlast : (before.map Param.unconstrained).getLast?.bind (orderDefect ·.kind p.unconstrained) =
      before.getLast?.bind (orderDefect ·.kind p) := by
    rw [List.getLast?_map]
    cases before.getLast? <;> rfl
  simp only [defectAfter, hlast, List.any_map, List.length_map]
  rfl

theorem firstDefect_unconstrained (before ps : List Param) :
    firstDefect (before.map Param.unconstrained) (ps.map Param.unconstrained) =
      firstDefect before ps := by
  induction ps generalizing before with
  | nil => rfl
  | cons p ps ih =>
    have hstep : before.map Param.unconstrained ++ [p.unconstrained] =
        (before ++ [p]).map Param.unconstrained := by simp
    rw [List.map_cons, firstDefect, firstDefect, defectAfter_unconstrained, hstep, ih]

/-- The defect of a list is that of any other one that differs in its constraints only. -/
theorem ofParams_eq_error_of_unconstrained {ps ps' : List Param} {defect : Defect}
    (hps : ps'.map Param.unconstrained = ps.map Param.unconstrained)
    (h : ofParams ps = .error defect) : ofParams ps' = .error defect := by
  rw [ofParams_eq_error_iff] at h ⊢
  rw [← h, ← firstDefect_unconstrained [] ps', ← firstDefect_unconstrained [] ps, hps]

end Signature

/-! ## Rows -/

theorem Constraint.compile_eq_error {a : Constraint} {param : ParamRef} {e : Failure} :
    a.compile param = .error e ↔ ∃ problem, a.firstProblem? = some problem ∧
      e = .constraintCompilation param a.text problem.message := by
  simp only [compile, ← checks_eq_error_iff]
  cases a.checks <;> simp [eq_comm]

/-- The constraint of a parameter compiles, or there is none. -/
def Param.Compiles (p : Param) : Prop := ∀ a, p.constraint = some a → ∃ cs, a.checks = .ok cs

theorem Param.compiles_iff {p : Param} {index : Nat} :
    p.Compiles ↔ ∃ row, p.compile index = .ok row := by
  simp only [Param.compile_eq_ok, Compiles]
  cases p.constraint <;> simp

/-- The parameter at an index is the first one whose constraint does not compile, and the constraint
has its first problem there. -/
structure Blames (ps : List Param) (index : Nat) (p : Param) (a : Constraint) (problem : Problem) :
    Prop where
  param : ps[index]? = some p
  constraint : p.constraint = some a
  problem : a.firstProblem? = some problem
  before : ∀ q ∈ ps.take index, q.Compiles

theorem Blames.not_compiles {ps : List Param} {index : Nat} {p : Param} {a : Constraint}
    {problem : Problem} (h : Blames ps index p a problem) : ¬ p.Compiles := by
  intro hc
  have := Constraint.isOk_checks_iff_firstProblem?.1 (hc a h.constraint)
  rw [h.problem] at this
  cases this

/-- What stands behind the parameter blamed has no part in that. -/
theorem Blames.of_take_eq {ps ps' : List Param} {index : Nat} {p : Param} {a : Constraint}
    {problem : Problem} (h : Blames ps index p a problem)
    (hps : ps'.take (index + 1) = ps.take (index + 1)) : Blames ps' index p a problem where
  param := by
    rw [← List.getElem?_take_of_lt (Nat.lt_succ_self index), hps,
      List.getElem?_take_of_lt (Nat.lt_succ_self index)]
    exact h.param
  constraint := h.constraint
  problem := h.problem
  before := by
    have htake : ps'.take index = ps.take index := by
      have := congrArg (List.take index) hps
      simpa only [List.take_take, Nat.min_eq_left (Nat.le_succ index)] using this
    rw [htake]
    exact h.before

/-- Compilation fails at the parameter that is blamed, with what is wrong there. -/
theorem compileRows_eq_error_iff {start : Nat} {ps : List Param} {e : Failure} :
    compileRows start ps = .error e ↔ ∃ index p a problem, Blames ps index p a problem ∧
      e = .constraintCompilation ⟨start + index, p.name⟩ a.text problem.message := by
  induction ps generalizing start with
  | nil =>
    simp only [compileRows, reduceCtorEq, false_iff]
    rintro ⟨index, p, a, problem, h, -⟩
    cases h.param
  | cons q ps ih =>
    rw [compileRows, exceptBind_eq_error]
    refine ⟨?_, ?_⟩
    · rintro (hq | ⟨row, hq, h⟩)
      · rw [Param.compile] at hq
        split at hq
        · rename_i a ha
          obtain ⟨problem, hp, rfl⟩ := Constraint.compile_eq_error.1 hq
          exact ⟨0, q, a, problem, ⟨rfl, ha, hp, by simp⟩, rfl⟩
        · cases hq
      · rcases exceptBind_eq_error.1 h with h | ⟨_, _, h⟩
        · obtain ⟨index, p, a, problem, hb, rfl⟩ := ih.1 h
          refine ⟨index + 1, p, a, problem, ⟨hb.param, hb.constraint, hb.problem, ?_⟩, ?_⟩
          · rw [List.take_succ_cons]
            exact List.forall_mem_cons.2 ⟨Param.compiles_iff.2 ⟨row, hq⟩, hb.before⟩
          · rw [show start + (index + 1) = start + 1 + index by omega]
        · cases h
    · rintro ⟨index, p, a, problem, hb, rfl⟩
      cases index with
      | zero =>
        obtain rfl : q = p := Option.some.inj hb.param
        refine .inl ?_
        rw [Param.compile, hb.constraint]
        exact Constraint.compile_eq_error.2 ⟨problem, hb.problem, rfl⟩
      | succ index =>
        have hbefore := hb.before
        rw [List.take_succ_cons, List.forall_mem_cons] at hbefore
        obtain ⟨row, hq⟩ := Param.compiles_iff.1 hbefore.1
        refine .inr ⟨row, hq, exceptBind_eq_error.2 (.inl (ih.2 ?_))⟩
        refine ⟨index, p, a, problem, ⟨hb.param, hb.constraint, hb.problem, hbefore.2⟩, ?_⟩
        rw [show start + (index + 1) = start + 1 + index by omega]

theorem exists_blames_iff {ps : List Param} :
    (∃ index p a problem, Blames ps index p a problem) ↔ ∃ p ∈ ps, ¬ p.Compiles := by
  refine ⟨?_, ?_⟩
  · rintro ⟨index, p, a, problem, h⟩
    exact ⟨p, List.mem_of_getElem? h.param, h.not_compiles⟩
  · rintro ⟨p, hp, hn⟩
    cases hr : compileRows 0 ps with
    | error e =>
      obtain ⟨index, p, a, problem, h, -⟩ := compileRows_eq_error_iff.1 hr
      exact ⟨index, p, a, problem, h⟩
    | ok rows =>
      obtain ⟨i, hi⟩ := List.mem_iff_getElem?.1 hp
      obtain ⟨row, -, hc⟩ := compileRows_getElem? hr hi
      exact absurd (Param.compiles_iff.2 ⟨row, hc⟩) hn

/-! ## Registration -/

namespace Guarded

theorem register_eq_error_iff {name : String} {ps : List Param} {e : Failure} :
    register name ps = .error e ↔
      (∃ defect, Signature.ofParams ps = .error defect ∧ e = .invalidSignature defect) ∨
      (∃ s, Signature.ofParams ps = .ok s) ∧ compileRows 0 ps = .error e := by
  rw [register, Contract.ofParams]
  cases hs : Signature.ofParams ps with
  | error defect => simp [eq_comm]
  | ok s =>
    obtain rfl := Signature.ofParams_params hs
    dsimp only
    split
    · rename_i hr
      split at hr <;> simp_all
    · rename_i hr
      split at hr <;> simp_all

theorem checkCount_eq_sum (c : Contract) :
    c.checkCount =
      ((List.range c.signature.params.length).map fun i => (c.checksFor i).length).sum := by
  have hrows : c.rows = (List.range c.signature.params.length).map c.checksFor := by
    rw [← length_compileRows c.compiled]
    refine List.ext_getElem (by simp) fun i hi _ => ?_
    simp [Contract.checksFor, hi]
  rw [Contract.checkCount, List.length_flatten, hrows, List.map_map]
  rfl

/-- A registration fails exactly if the parameters make no signature or a constraint does not
compile. A defect of the signature is reported for all constraints that there might be; else the
first constraint that does not compile is, with its own text and the words of its first problem, for
all parameters that might stand behind. A function that is registered has the checks of each
constraint, in the row of its parameter. -/
theorem register_reports_first_problem (name : String) (ps : List Param) :
    ((∃ e, register name ps = .error e) ↔
      (∃ defect, Signature.ofParams ps = .error defect) ∨ ∃ p ∈ ps, ¬ p.Compiles) ∧
    (∀ defect, Signature.ofParams ps = .error defect → ∀ ps',
      ps'.map Param.unconstrained = ps.map Param.unconstrained →
      register name ps' = .error (.invalidSignature defect)) ∧
    (∀ s e, Signature.ofParams ps = .ok s → register name ps = .error e →
      ∃ index p a problem text, Blames ps index p a problem ∧ problem.Says text ∧
        e = .constraintCompilation ⟨index, p.name⟩ a.text text ∧
        ∀ ps' s', ps'.take (index + 1) = ps.take (index + 1) → Signature.ofParams ps' = .ok s' →
          register name ps' = .error e) ∧
    (∀ g, register name ps = .ok g →
      g.name = name ∧ g.contract.signature.params = ps ∧ g.contract.rows.length = ps.length ∧
      (∀ i p, ps[i]? = some p →
        (p.constraint = none ∧ g.contract.checksFor i = []) ∨
        ∃ a, p.constraint = some a ∧ a.compile ⟨i, p.name⟩ = .ok (g.contract.checksFor i)) ∧
      (∀ i, ps.length ≤ i → g.contract.checksFor i = []) ∧
      g.contract.checkCount =
        ((List.range ps.length).map fun i => (g.contract.checksFor i).length).sum) := by
  have hblame : ∀ ps e, compileRows 0 ps = .error e ↔ ∃ index p a problem,
      Blames ps index p a problem ∧
        e = .constraintCompilation ⟨index, p.name⟩ a.text problem.message := by
    intro ps e
    simp only [compileRows_eq_error_iff, Nat.zero_add]
  refine ⟨?_, fun defect h ps' hps => ?_, fun s e hs h => ?_, fun g h => ?_⟩
  · simp only [register_eq_error_iff]
    cases hs : Signature.ofParams ps with
    | error defect => simp
    | ok s =>
      simp only [hblame, ← exists_blames_iff, reduceCtorEq, false_and, exists_false, false_or,
        Except.ok.injEq, exists_eq', true_and]
      constructor
      · rintro ⟨-, i, p, a, problem, hb, -⟩
        exact ⟨i, p, a, problem, hb⟩
      · rintro ⟨i, p, a, problem, hb⟩
        exact ⟨_, i, p, a, problem, hb, rfl⟩
  · have h' := Signature.ofParams_eq_error_of_unconstrained hps h
    exact register_eq_error_iff.2 (.inl ⟨defect, h', rfl⟩)
  · obtain ⟨defect, hd, -⟩ | ⟨-, hr⟩ := register_eq_error_iff.1 h
    · rw [hs] at hd
      cases hd
    · obtain ⟨index, p, a, problem, hb, rfl⟩ := (hblame ps e).1 hr
      refine ⟨index, p, a, problem, _, hb, Problem.says_iff.2 rfl, rfl, fun ps' s' hps hs' => ?_⟩
      refine register_eq_error_iff.2 (.inr ⟨⟨s', hs'⟩, (hblame ps' _).2 ?_⟩)
      exact ⟨index, p, a, problem, hb.of_take_eq hps, rfl⟩
  · obtain rfl := Signature.ofParams_params (register_eq_ok h).1
    refine ⟨(register_keeps h).1, rfl, length_compileRows g.contract.compiled, fun i p hp => ?_,
      fun i hi => Contract.checksFor_of_length_le hi, checkCount_eq_sum g.contract⟩
    refine (Contract.checksFor_of_getElem? hp).imp_right ?_
    rintro ⟨a, ha, hr⟩
    exact ⟨a, ha, Constraint.compile_eq_ok.2 hr⟩

/-- The element of a sequence comes to two checks, which is reported before the empty group outside
the sequence and instead of the empty refinement behind; but only where names are distinct. A part
that is not recognised is reported by its text, and the constraint around it is named. -/
theorem refined_element_reported :
    let element : Constraint := .refined (.plain .int) [.kind .positive]
    let a : Constraint := .refined (.sequenceOf element) [.group []]
    let n : Param := ⟨"n", .positionalOnly, none, some (.plain .int)⟩
    let xs : Param := ⟨"xs", .positionalOrKeyword, none, some a⟩
    let foos : Param := ⟨"foos", .positionalOrKeyword, none, some (.sequenceOf (.other "Foo"))⟩
    let others : Param := ⟨"others", .varKeyword, none, some (.refined (.plain .int) [])⟩
    let e : Failure :=
      .constraintCompilation ⟨1, "xs"⟩ "Refined[Sequence[Refined[int, Positive]], []]"
        ("element type of a sequence must compile to exactly one check; " ++
          "`Refined[int, Positive]` compiles to 2")
    register "f" [n, xs, others] = .error e ∧
      (∃ index p b problem text, Blames [n, xs, others] index p b problem ∧ problem.Says text ∧
        e = .constraintCompilation ⟨index, p.name⟩ b.text text ∧
        ∀ ps' s', ps'.take (index + 1) = [n, xs, others].take (index + 1) →
          Signature.ofParams ps' = .ok s' → register "f" ps' = .error e) ∧
      register "f" [foos, xs] = .error (.constraintCompilation ⟨0, "foos"⟩ "Sequence[Foo]"
        "unrecognised type annotation `Foo`") ∧
      register "f" [n, xs, n] = .error (.invalidSignature (.duplicateName "n")) ∧
      ∃ g, register "f" [n] = .ok g ∧ g.contract.checksFor 0 = [.typeEquals .int] ∧
        g.contract.checksFor 1 = [] ∧ g.contract.checkCount = 1 := by
  intro element a n xs foos others e
  have htext : a.text = "Refined[Sequence[Refined[int, Positive]], []]" := by decide +kernel
  have hproblem : (Problem.elementChecks element 2).message =
      "element type of a sequence must compile to exactly one check; " ++
        "`Refined[int, Positive]` compiles to 2" := by decide +kernel
  have he : register "f" [n, xs, others] = .error e := by
    have h : register "f" [n, xs, others] = .error
      (.constraintCompilation ⟨1, "xs"⟩ a.text (Problem.elementChecks element 2).message) := rfl
    rwa [htext, hproblem] at h
  have hfoosText : (Constraint.sequenceOf (.other "Foo")).text = "Sequence[Foo]" := by
    decide +kernel
  have hunrecognised : (Problem.unrecognised "Foo").message =
      "unrecognised type annotation `Foo`" := by decide +kernel
  have hfoos : register "f" [foos, xs] = .error (.constraintCompilation ⟨0, "foos"⟩ "Sequence[Foo]"
      "unrecognised type annotation `Foo`") := by
    have h : register "f" [foos, xs] = .error (.constraintCompilation ⟨0, "foos"⟩
      (Constraint.sequenceOf (.other "Foo")).text (Problem.unrecognised "Foo").message) := rfl
    rwa [hfoosText, hunrecognised] at h
  obtain ⟨-, -, hfirst, -⟩ := register_reports_first_problem "f" [n, xs, others]
  obtain ⟨-, hdefect, -, -⟩ := register_reports_first_problem "f" [n, xs, n]
  obtain ⟨-, -, -, hkept⟩ := register_reports_first_problem "f" [n]
  refine ⟨he, hfirst _ e rfl he, hfoos, hdefect _ rfl _ rfl, _, rfl, rfl, ?_, ?_⟩
  · exact (hkept _ rfl).2.2.2.2.1 1 (Nat.le_refl 1)
  · exact (hkept _ rfl).2.2.2.2.2

end Guarded
end CallContract
