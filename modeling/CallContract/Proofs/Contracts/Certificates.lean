import CallContract.Proofs.Binding.Conservation
import CallContract.Proofs.Checks.Elements
import CallContract.Proofs.Contracts.Examination

/-!
# Reports certify themselves

Whoever has the report of a failed examination can check it against the call: the parameter is
declared, the check stands in its row, the argument comes from where its source says, and making
the check on the argument's value once more gives what the report says (`Certifies`). Only a call
that does not bind has a report about no argument at all.

**Results.**
* `origin_of_mem_table`: bound values come from where their sources say.
* `judge_reports`: the case of a report is the outcome of its check.
* `examine_certifies`: every report of an examination certifies itself.
-/
namespace CallContract

/-! ## Origins of arguments -/

namespace Signature

/-- The argument of a parameter comes from where its source says. -/
def Originates (s : Signature) (call : Call) (i : Nat) (p : Param) (a : Argument) : Prop :=
  match a.source with
  | .positional j =>
    call.args[j]? = some a.value ∧
      (p.kind.isPositional = true ∧ i = j ∨ p.kind = .varPositional ∧ i ≤ j)
  | .keyword name =>
    call.keyword? name = some a.value ∧
      (p.kind.isNamed = true ∧ p.name = name ∨ p.kind = .varKeyword ∧ ¬ s.Accepts name)
  | .default => p.default = some a.value ∧ ¬ IsSupplied call p i

theorem origin_of_mem_table {s : Signature} {call : Call} (h : s.Fits call) {b : Bound}
    (hb : b ∈ s.table call) :
    ∃ p, s.params[b.param]? = some p ∧ s.Originates call b.param p b.argument := by
  obtain ⟨p, hp, hb⟩ := mem_table.1 hb
  obtain ⟨i, source, v⟩ := b
  refine ⟨p, hp, ?_⟩
  cases source with
  | positional j => exact mem_held_positional.1 hb
  | keyword name =>
    rcases mem_held_keyword.1 hb with ⟨hn, he, hv, -⟩ | ⟨hk, hm⟩
    · exact ⟨hv, .inl ⟨hn, he⟩⟩
    · obtain ⟨hm, ha⟩ := mem_unaccepted.1 hm
      exact ⟨keyword?_eq_some h.keywords_nodup hm, .inr ⟨hk, ha⟩⟩
  | default =>
    obtain ⟨-, hs, hd⟩ := mem_held_default.1 hb
    exact ⟨hd, hs⟩

end Signature

/-! ## Reports -/

/-- A report about an argument and a check says what the check comes to on the argument's value. -/
structure Failure.Reports (e : Failure) (param : ParamRef) (a : Argument) (check : Check) :
    Prop where
  about : e.param? = some param ∧ e.arg? = some a ∧ e.check? = some check
  execution : ∀ operation v, e = .checkExecution param a check operation v ↔
    ∃ op, op.text = operation ∧ check.evaluate a.value = .error ⟨op, v⟩
  type : ∀ declared received, e = .typeViolation param a check declared received ↔
    check.evaluate a.value = .ok .fail ∧ check.declaredType? = some declared ∧
      a.value.type = received
  value : e = .valueViolation param a check ↔
    check.evaluate a.value = .ok .fail ∧ check.category = .value
  element : ∀ index x, e = .elementViolation param a check index x ↔
    check.evaluate a.value = .ok (.failAt index x)

theorem Check.declaredType?_eq_none_iff {c : Check} :
    c.declaredType? = none ↔ c.category ≠ .type := by
  cases c <;> simp [declaredType?, category]

theorem Check.judge_reports {check : Check} {param : ParamRef} {a : Argument} {e : Failure}
    (h : check.judge param a = some e) : e.Reports param a check := by
  rw [judge] at h
  split at h
  · cases h
  · rename_i hev
    cases h
    cases hc : check.category with
    | each => exact absurd hc (category_ne_each_of_fail hev)
    | value =>
      have hd : check.declaredType? = none := declaredType?_eq_none_iff.2 (by simp [hc])
      have hv : check.violation param a none = .valueViolation param a check := by
        simp only [violation, hc]
      rw [hv]
      constructor <;> simp [hev, hc, hd, Failure.param?, Failure.arg?, Failure.check?]
    | type =>
      obtain ⟨declared, hd⟩ : ∃ declared, check.declaredType? = some declared := by
        rw [← Option.ne_none_iff_exists', Ne, declaredType?_eq_none_iff]
        simp [hc]
      have hv : check.violation param a none =
          .typeViolation param a check declared a.value.type := by
        simp only [violation, hc, hd, Option.getD_some]
      rw [hv]
      constructor <;> simp [hev, hc, hd, Failure.param?, Failure.arg?, Failure.check?]
  · rename_i index x hev
    cases h
    obtain ⟨inner, before, after, rfl, -⟩ := evaluate_eq_failAt_iff.1 hev
    have hv : (eachSatisfies inner).violation param a (some (index, x)) =
        .elementViolation param a (.eachSatisfies inner) index x := rfl
    rw [hv]
    constructor <;> simp [hev, Failure.param?, Failure.arg?, Failure.check?]
  · rename_i e hev
    obtain ⟨op, w⟩ := e
    cases h
    constructor <;> simp [hev, Failure.param?, Failure.arg?, Failure.check?]

/-! ## Certificates -/

namespace Contract

/-- A report about the argument of a parameter holds up against the call, the signature and the
row of checks. -/
structure Certifies (c : Contract) (call : Call) (e : Failure) (i : Nat) (p : Param)
    (a : Argument) (check : Check) : Prop where
  declared : c.signature.params[i]? = some p
  origin : c.signature.Originates call i p a
  row : check ∈ c.checksFor i
  report : e.Reports ⟨i, p.name⟩ a check
  /-- An element is reported of a check of elements, and it is the first that is not passed. -/
  first : ∀ index x, e = .elementViolation ⟨i, p.name⟩ a check index x →
    ∃ inner before after, check = .eachSatisfies inner ∧
      a.value.elements? = some (before ++ x :: after) ∧ index = before.length ∧
      (∀ w ∈ before, inner.evaluate w = .ok .pass) ∧
      ∃ verdict, inner.evaluate x = .ok verdict ∧ verdict ≠ .pass

theorem param_of_getElem? {c : Contract} {i : Nat} {p : Param}
    (h : c.signature.params[i]? = some p) : c.param i = ⟨i, p.name⟩ := by
  simp [param, h]

theorem certifies_of_judgePair {c : Contract} {call : Call} (hfits : c.signature.Fits call)
    {pair : Bound × Check} (hp : pair ∈ c.schedule call) {e : Failure}
    (h : c.judgePair pair = some e) :
    ∃ i p a check, c.Certifies call e i p a check := by
  obtain ⟨b, check⟩ := pair
  obtain ⟨hb, hrow⟩ := mem_schedule.1 hp
  obtain ⟨p, hdecl, horigin⟩ := Signature.origin_of_mem_table hfits hb
  have hreport : e.Reports ⟨b.param, p.name⟩ b.argument check := by
    rw [← param_of_getElem? hdecl]
    exact Check.judge_reports h
  refine ⟨b.param, p, b.argument, check, hdecl, horigin, hrow, hreport, ?_⟩
  intro index x he
  exact Check.evaluate_eq_failAt_iff.1 ((hreport.element index x).1 he)

/-- Every report of an examination certifies itself: it is about no argument exactly if the call
does not bind, and otherwise it can be checked against the call. -/
theorem examine_certifies {c : Contract} {call : Call} {e : Failure}
    (h : (c.examine call).2 = some e) :
    (∀ rejection, c.signature.bind call = .error rejection ↔
      e = .bindingRejection rejection ∧ e.param? = none ∧ e.arg? = none ∧ e.check? = none) ∧
    (∀ bound, c.signature.bind call = .ok bound →
      ∃ i p a check, c.Certifies call e i p a check) := by
  cases hb : c.signature.bind call with
  | error rejection =>
    rw [examine_of_rejected hb] at h
    cases h
    simp [Failure.param?, Failure.arg?, Failure.check?]
  | ok bound =>
    have hcert : ∃ i p a check, c.Certifies call e i p a check := by
      obtain ⟨before, pair, after, hs, -, hj⟩ := exists_first_of_examine_eq_some hb h
      refine certifies_of_judgePair (Signature.bind_eq_ok_iff.1 hb).1 ?_ hj
      rw [hs]
      simp
    refine ⟨fun rejection => ?_, fun _ _ => hcert⟩
    obtain ⟨i, p, a, check, hc⟩ := hcert
    simp [hc.report.about.1]

/-- Of two lists collected, the second has a text among its integers. -/
theorem list_with_text_certified :
    ∃ c e, ofParams "f" [⟨"lists", .varPositional, none, some (.sequenceOf (.plain .int))⟩]
        = .ok c ∧
      (c.examine ⟨[.list [.bool true], .list [.int 1, .str "x"]], []⟩).2 = some e ∧
      e.kind = .elementViolation ∧
      ∃ i p a check,
        c.Certifies ⟨[.list [.bool true], .list [.int 1, .str "x"]], []⟩ e i p a check :=
  ⟨_, _, rfl, rfl, rfl, (examine_certifies rfl).2 _ rfl⟩

end Contract
end CallContract
