import CallContract.Proofs.Console.Lines
import CallContract.Proofs.Contracts.Modes
import CallContract.Samples.Constraints

/-!
# What the console shows of a call

The console shows a call as far as it is looked at: a line with a tick for every pair of a bound
value and a check before the first that does not pass, a line with a cross for that one, and then
its violation. Lines are of the finest level, violations and rejected calls of the level above, and
the warning of a failure that is let pass is there at the level of warnings already; so each log
shows the same text less the parts of levels that it does not keep.

**Results.**
* `written_map_checkedPair`, `written_stoppedAt`: the text of a walk to the end, and of one that
  stops.
* `shows_walk`: what a call does and what the log shows of it, for every mode and every log.
-/
namespace CallContract

open Console

/-! ## Walks -/

namespace Contract

/-- The line of a pair. -/
def lineOf (c : Contract) (passed : Bool) (pair : Bound × Check) : String :=
  checkLine passed (c.param pair.1.param) pair.2

/-- The lines of pairs that pass. -/
def ticks (c : Contract) (pairs : List (Bound × Check)) : String :=
  String.join (pairs.map (c.lineOf true))

/-- What a log writes of a walk that stops at a pair. -/
def stopText (c : Contract) (f : Filter) (before : List (Bound × Check)) (pair : Bound × Check)
    (failure : Failure) : String :=
  f.kept .trace (c.ticks before ++ c.lineOf false pair) ++
    f.kept .debug (violationEntry c.name (c.param pair.1.param) failure)

theorem written_map_checkedPair (c : Contract) (f : Filter) (pairs : List (Bound × Check)) :
    f.written ((pairs.map (c.checkedPair true)).map Event.record) =
      f.kept .trace (c.ticks pairs) := by
  rw [Filter.written_events, List.map_map]
  exact Filter.join_kept f .trace (c.lineOf true) pairs

theorem written_stoppedAt (c : Contract) (f : Filter) (before : List (Bound × Check))
    (pair : Bound × Check) (failure : Failure) :
    f.written ((c.stoppedAt before pair failure).map Event.record) =
      c.stopText f before pair failure := by
  have hlast : f.written ([c.checkedPair false pair,
      .violated c.name (c.param pair.1.param) failure].map Event.record) =
      f.kept .trace (c.lineOf false pair) ++
        f.kept .debug (violationEntry c.name (c.param pair.1.param) failure) := by
    rw [Filter.written_events]
    simp [checkedPair, Event.level, Event.entry, lineOf]
  rw [stoppedAt, List.map_append, Filter.written_append, written_map_checkedPair, hlast, stopText,
    Filter.kept_append, String.append_assoc]

end Contract

/-! ## Calls -/

namespace Guarded

/-- The body runs on the call, and this is what the log writes. -/
def RunsShowing (g : Guarded) (f : Filter) (c : Call) (text : String) : Prop :=
  ∃ events, g.Runs c events ∧ f.written (events.map Event.record) = text

/-- The call stops with the failure, and this is what the log writes. -/
def StopsShowing (g : Guarded) (f : Filter) (c : Call) (failure : Failure) (text : String) : Prop :=
  ∃ events, g.Stops c events failure ∧ f.written (events.map Event.record) = text

/-- A call that binds is examined up to the first pair that does not pass: the failure of that pair
is the report, the pairs behind it have no part in the examination, and the log shows the pairs up
to it. Of enforcing and warning, the mode decides only whether the call goes on. -/
theorem shows_walk (g : Guarded) (f : Filter) (c : Call) :
    (g.mode = .off → g.RunsShowing f c "") ∧
    (∀ rejection, g.contract.signature.bind c = .error rejection → g.mode ≠ .off →
      g.StopsShowing f c (.bindingRejection rejection)
        (f.kept .debug (rejectionEntry g.name rejection))) ∧
    ∀ bound, g.contract.signature.bind c = .ok bound →
      ((g.contract.examine c).2 = none ↔ ∀ pair ∈ g.contract.schedule c, Contract.Passes pair) ∧
      ((∀ pair ∈ g.contract.schedule c, Contract.Passes pair) → g.mode ≠ .off →
        g.RunsShowing f c (f.kept .trace (g.contract.ticks (g.contract.schedule c)))) ∧
      ∀ before pair after, g.contract.schedule c = before ++ pair :: after →
        (∀ q ∈ before, Contract.Passes q) → ¬ Contract.Passes pair →
        ∃ failure, g.contract.judgePair pair = some failure ∧
          (∀ rest, g.contract.examineAll (before ++ pair :: rest) = g.contract.examine c) ∧
          (g.contract.examine c).2 = some failure ∧
          (g.mode = .enforce →
            g.StopsShowing f c failure (g.contract.stopText f before pair failure)) ∧
          (g.mode = .warn →
            g.RunsShowing f c (g.contract.stopText f before pair failure ++
              f.kept .warn (warningEntry g.name failure))) := by
  refine ⟨fun hm => ?off, fun rejection hr hm => ?rejected,
    fun bound hb => ⟨?none, ?passes, ?first⟩⟩
  case off => exact ⟨[], runs_of_decide (decide_off hm c), rfl⟩
  case rejected =>
    refine ⟨_, stops_of_decide (decide_of_rejected hm hr), ?_⟩
    rw [Filter.written_events]
    simp [Event.level, Event.entry]
  case none =>
    rw [Contract.examine_of_bound hb]
    exact Contract.examineAll_eq_none
  case passes =>
    intro hp hm
    exact ⟨_, runs_of_decide (decide_of_passes hm hb hp), g.contract.written_map_checkedPair f _⟩
  case first =>
    intro before pair after hs hbefore hpair
    obtain ⟨failure, hj⟩ : ∃ failure, g.contract.judgePair pair = some failure :=
      Option.ne_none_iff_exists'.1 fun hn => hpair (Contract.judgePair_eq_none.1 hn)
    have he := Contract.examine_of_first hb hs hbefore hj
    refine ⟨failure, hj, fun rest => ?_, by rw [he], fun hm => ?_, fun hm => ?_⟩
    · rw [he, Contract.examineAll_of_first hbefore hj]
    · exact ⟨_, stops_of_decide (decide_enforce_of_first hm hb hs hbefore hj),
        g.contract.written_stoppedAt f before pair failure⟩
    · refine ⟨_, runs_of_decide (decide_warn_of_first hm hb hs hbefore hj), ?_⟩
      rw [List.map_append, Filter.written_append, Contract.written_stoppedAt, Filter.written_events]
      simp [Event.level, Event.entry]

/-- Of three lists collected, the second is empty: nothing is shown of the third. With a warning the
call goes on, and a call with a name that is not declared shows no check at all. -/
theorem empty_list_shown :
    ∃ g, register "f"
        [⟨"xs", .varPositional, none, some (.refined (.plain .list) [.kind .nonEmpty])⟩] = .ok g ∧
      let c : Call := ⟨[.list [.int 1], .list [], .list []], []⟩
      let failure := .valueViolation ⟨0, "xs"⟩ ⟨.positional 1, .list []⟩ .nonEmpty
      g.StopsShowing (.upTo .trace) c failure
        ("  \x1b[32m✓\x1b[39m \x1b[90m[0]='xs'\x1b[39m TypeEquals(type_declared=list)\n" ++
          "  \x1b[32m✓\x1b[39m \x1b[90m[0]='xs'\x1b[39m NonEmpty()\n" ++
          "  \x1b[32m✓\x1b[39m \x1b[90m[0]='xs'\x1b[39m TypeEquals(type_declared=list)\n" ++
          "  \x1b[31m✗\x1b[39m \x1b[90m[0]='xs'\x1b[39m NonEmpty()\n" ++
          "\x1b[1m\x1b[91m✘\x1b[39m\x1b[0m \x1b[1m\x1b[37mf\x1b[39m\x1b[0m │ " ++
          "\x1b[95mCallArgValueCheckViolation\x1b[39m │ param \x1b[36m[0]='xs'\x1b[39m\n" ++
          "    \x1b[90mviolation of value-constraint check `NonEmpty()` for param [0]='xs': " ++
          "[1]=[]\x1b[39m\n") ∧
      (g.withPolicy ⟨.warn, []⟩).RunsShowing .byDefault c
        ("\x1b[1m\x1b[93m⚠\x1b[39m\x1b[0m \x1b[1m\x1b[37mf\x1b[39m\x1b[0m │ " ++
          "\x1b[95mCallArgValueCheckViolation\x1b[39m\n" ++
          "    \x1b[90mviolation of value-constraint check `NonEmpty()` for param [0]='xs': " ++
          "[1]=[]\x1b[39m\n") ∧
      g.StopsShowing (.upTo .debug) ⟨[], [("ys", .none)]⟩
        (.bindingRejection (.unexpectedKeyword "ys"))
        ("\x1b[1m\x1b[91m✘\x1b[39m\x1b[0m \x1b[1m\x1b[37mf\x1b[39m\x1b[0m │ " ++
          "\x1b[91mbinding rejected\x1b[39m │ " ++
          "\x1b[90mgot an unexpected keyword argument 'ys'\x1b[39m\n") := by
  let first : Bound := ⟨0, .positional 0, .list [.int 1]⟩
  let second : Bound := ⟨0, .positional 1, .list []⟩
  let third : Bound := ⟨0, .positional 2, .list []⟩
  let before : List (Bound × Check) :=
    [(first, .typeEquals .list), (first, .nonEmpty), (second, .typeEquals .list)]
  obtain ⟨g, hg⟩ : ∃ g, register "f"
      [⟨"xs", .varPositional, none, some (.refined (.plain .list) [.kind .nonEmpty])⟩] = .ok g :=
    ⟨_, rfl⟩
  refine ⟨g, hg, ?_⟩
  intro c failure
  have hbind : g.contract.signature.bind c = .ok [first, second, third] := by cases hg; rfl
  have hschedule : g.contract.schedule c = before ++
      (second, .nonEmpty) :: [(third, .typeEquals .list), (third, .nonEmpty)] := by cases hg; rfl
  have hpasses : ∀ q ∈ before, Contract.Passes q := by
    simp only [before, List.mem_cons, List.not_mem_nil, or_false]
    rintro q (rfl | rfl | rfl) <;> rfl
  have hfails : ¬ Contract.Passes (second, .nonEmpty) := by
    rintro ⟨⟩
  have hjudge : g.contract.judgePair (second, .nonEmpty) = some failure := by cases hg; rfl
  have hrejected : g.contract.signature.bind ⟨[], [("ys", .none)]⟩ =
      .error (.unexpectedKeyword "ys") := by cases hg; rfl
  have hmode : g.mode = .enforce := (register_eq_ok hg).2
  have hchecked : g.mode ≠ .off := by simp [hmode]
  -- The texts are evaluated as a whole: that of the walk, that of its warning, that of a rejection.
  refine ⟨?_, ?_, ?_⟩
  · obtain ⟨reported, hj, -, -, hstops, -⟩ :=
      ((shows_walk g (.upTo .trace) c).2.2 _ hbind).2.2 _ _ _ hschedule hpasses hfails
    cases hj.symm.trans hjudge
    convert hstops hmode using 1
    cases hg
    decide +kernel
  · obtain ⟨reported, hj, -, -, -, hruns⟩ :=
      ((shows_walk (g.withPolicy ⟨.warn, []⟩) .byDefault c).2.2 _ hbind).2.2 _ _ _ hschedule hpasses
        hfails
    cases hj.symm.trans hjudge
    convert hruns rfl using 1
    cases hg
    decide +kernel
  · convert (shows_walk g (.upTo .debug) ⟨[], [("ys", .none)]⟩).2.1 _ hrejected hchecked using 1
    cases hg
    decide +kernel

end Guarded
end CallContract
