import CallContract.Constraint.Compilation
import CallContract.Check.Violation
import CallContract.Event

/-!
# Contracts

A contract is a signature whose constraints are compiled: a row of checks for each parameter. A
call is examined by binding it and making the checks of each bound value's parameter on it, in
the order of the bound values and of the row, up to the first that does not pass. The examination
tells the events on its way.

**Results.**
* `examineAll_eq_none`: nothing is reported exactly when every check passes.
* `length_compileRows`: every parameter has its row.
-/
namespace CallContract

/-- The checks of a constraint at a parameter, or the failure to compile it. -/
def Constraint.compile (a : Constraint) (param : ParamRef) : Except Failure (List Check) :=
  match a.checks with
  | .ok cs => .ok cs
  | .error problem => .error (.constraintCompilation param a.text problem.message)

theorem Constraint.compile_eq_ok {a : Constraint} {param : ParamRef} {cs : List Check} :
    a.compile param = .ok cs ↔ a.checks = .ok cs := by
  rw [compile]
  cases a.checks <;> simp

/-- The row of a parameter; it is empty without a constraint. -/
def Param.compile (p : Param) (index : Nat) : Except Failure (List Check) :=
  match p.constraint with
  | some a => a.compile ⟨index, p.name⟩
  | none => .ok []

/-- The rows of parameters, the first of them at `index`. -/
def compileRows (index : Nat) : List Param → Except Failure (List (List Check))
  | [] => .ok []
  | p :: params => do
    let row ← p.compile index
    let rows ← compileRows (index + 1) params
    return row :: rows

theorem length_compileRows {index : Nat} {params : List Param} {rows : List (List Check)}
    (h : compileRows index params = .ok rows) : rows.length = params.length := by
  induction params generalizing index rows with
  | nil => cases h; rfl
  | cons p params ih =>
    rw [compileRows] at h
    cases hp : p.compile index with
    | error e => simp [hp, bind, Except.bind] at h
    | ok row =>
      cases hs : compileRows (index + 1) params with
      | error e => simp [hp, hs, bind, Except.bind] at h
      | ok rest =>
        simp only [hp, hs, bind, Except.bind, pure, Except.pure, Except.ok.injEq] at h
        simp [← h, ih hs]

/-- A named function's signature with the row of checks of each parameter. -/
structure Contract where
  name : String
  signature : Signature
  rows : List (List Check)
  compiled : compileRows 0 signature.params = .ok rows

namespace Contract

/-- The contract of a function with these parameters, or the first problem with them. -/
def ofParams (name : String) (params : List Param) : Except Failure Contract :=
  match Signature.ofParams params with
  | .error defect => .error (.invalidSignature defect)
  | .ok s =>
    match h : compileRows 0 s.params with
    | .error e => .error e
    | .ok rows => .ok ⟨name, s, rows, h⟩

instance : BEq Contract :=
  ⟨fun a b => a.name == b.name && a.signature == b.signature && a.rows == b.rows⟩

/-- The checks of the parameter at an index; there are none behind the last one. -/
def checksFor (c : Contract) (index : Nat) : List Check := c.rows[index]?.getD []

def checkCount (c : Contract) : Nat := c.rows.flatten.length

/-- The parameter at an index as reports name it. -/
def param (c : Contract) (index : Nat) : ParamRef :=
  ⟨index, (c.signature.params[index]?.map (·.name)).getD ""⟩

/-- What registration tells. -/
def registered (c : Contract) : Event :=
  .compiled c.name c.signature.params.length c.checkCount

/-! ## Examination -/

/-- Every bound value with each check of its parameter. -/
def pairs (c : Contract) (bound : List Bound) : List (Bound × Check) :=
  bound.flatMap fun b => (c.checksFor b.param).map fun check => (b, check)

/-- The events of making the checks in order, and the first failure. -/
def examineAll (c : Contract) : List (Bound × Check) → List Event × Option Failure
  | [] => ([], none)
  | (b, check) :: rest =>
    let param := c.param b.param
    match check.judge param b.argument with
    | none =>
      let (events, failure) := c.examineAll rest
      (.checked c.name param b.argument.source check true :: events, failure)
    | some failure =>
      ([.checked c.name param b.argument.source check false, .violated c.name param failure],
        some failure)

/-- The events of examining a call, and why it fails if it does. -/
def examine (c : Contract) (call : Call) : List Event × Option Failure :=
  match c.signature.bind call with
  | .error rejection => ([.callRejected c.name rejection], some (.bindingRejection rejection))
  | .ok bound => c.examineAll (c.pairs bound)

theorem examineAll_eq_none {c : Contract} {pairs : List (Bound × Check)} :
    (c.examineAll pairs).2 = none ↔
      ∀ pair ∈ pairs, pair.2.evaluate pair.1.argument.value = .ok .pass := by
  induction pairs with
  | nil => simp [examineAll]
  | cons pair rest ih =>
    simp only [examineAll, List.mem_cons, forall_eq_or_imp]
    split
    next h => simpa only [Check.judge_eq_none.1 h, true_and] using ih
    next h =>
      simp only [reduceCtorEq, false_iff, not_and]
      intro hp
      simp [Check.judge_eq_none.2 hp] at h

end Contract
end CallContract
