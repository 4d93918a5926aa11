import CallContract.Contract
import CallContract.Proofs.Constraints.Compiled

/-!
# Rows of contracts

Which checks a contract holds for a parameter: those that its constraint compiles to, and none
where there is no constraint or no parameter. Rows and parameters stand at the same indices.

**Results.**
* `checksFor_cases`: the row at an index and the parameter there.
-/
namespace CallContract

theorem Param.compile_eq_ok {p : Param} {index : Nat} {row : List Check} :
    p.compile index = .ok row ↔
      (p.constraint = none ∧ row = []) ∨ ∃ a, p.constraint = some a ∧ a.checks = .ok row := by
  rw [Param.compile]
  cases p.constraint with
  | none => simp [eq_comm]
  | some a =>
    simp only [Constraint.compile_eq_ok, reduceCtorEq, false_and, false_or, Option.some.injEq,
      exists_eq_left']

theorem compileRows_getElem? {index : Nat} {params : List Param} {rows : List (List Check)}
    (h : compileRows index params = .ok rows) {i : Nat} {p : Param} (hp : params[i]? = some p) :
    ∃ row, rows[i]? = some row ∧ p.compile (index + i) = .ok row := by
  induction params generalizing index rows i with
  | nil => cases hp
  | cons q params ih =>
    rw [compileRows, exceptBind_eq_ok] at h
    obtain ⟨row, hr, h⟩ := h
    obtain ⟨rest, hs, h⟩ := exceptBind_eq_ok.1 h
    cases h
    cases i with
    | zero => cases hp; exact ⟨row, rfl, hr⟩
    | succ i =>
      obtain ⟨row', hr', hp'⟩ := ih hs hp
      exact ⟨row', hr', by rwa [show index + (i + 1) = index + 1 + i by omega]⟩

namespace Contract

theorem checksFor_of_getElem? {c : Contract} {index : Nat} {p : Param}
    (hp : c.signature.params[index]? = some p) :
    (p.constraint = none ∧ c.checksFor index = []) ∨
      ∃ a, p.constraint = some a ∧ a.checks = .ok (c.checksFor index) := by
  obtain ⟨row, hr, hc⟩ := compileRows_getElem? c.compiled hp
  rw [checksFor, hr]
  exact Param.compile_eq_ok.1 hc

theorem checksFor_of_length_le {c : Contract} {index : Nat}
    (h : c.signature.params.length ≤ index) : c.checksFor index = [] := by
  have := length_compileRows c.compiled
  rw [checksFor, List.getElem?_eq_none (by omega), Option.getD_none]

/-- A row is empty, or the checks of the constraint of the parameter at its index. -/
theorem checksFor_cases (c : Contract) (index : Nat) :
    (c.checksFor index = [] ∧
      ∀ p, c.signature.params[index]? = some p → p.constraint = none) ∨
    ∃ p a, c.signature.params[index]? = some p ∧ p.constraint = some a ∧
      a.checks = .ok (c.checksFor index) := by
  cases hp : c.signature.params[index]? with
  | none =>
    exact .inl ⟨checksFor_of_length_le (List.getElem?_eq_none_iff.1 hp), fun p h => by cases h⟩
  | some p =>
    rcases checksFor_of_getElem? hp with ⟨hn, hr⟩ | ⟨a, ha, hr⟩
    · exact .inl ⟨hr, fun q hq => by cases hq; exact hn⟩
    · exact .inr ⟨p, a, rfl, ha, hr⟩

end Contract
end CallContract
