import CallContract.Proofs.Console.Lines
import CallContract.Proofs.Sessions.Runs
import CallContract.Proofs.Texts.Delimited

/-!
# Names of functions on the console

Entries about compiled functions, rejected calls and violations name the function in a style of its
own: between the codes that switch it on and off (`styleOn`, `styleOff`) stands the name under which
the function was registered, character for character, as long as it does not stand between double
quotes itself. One pair of quotes around it is lost: the console takes it for the quotes of a shown
form, and names are shown without any. A lone quote, and a quote at one end, stay.

**Texts that tell names apart.** All else in an entry is independent of the name, and of compiled
functions it ends in two counts, which are read from the end. So two such entries are the same
exactly when the names are the same after the loss of quotes, and the counts are.

**Results.**
* `unquote_eq_self_iff`: what is shown as it is.
* `function_of_tells`: all that a function tells is about itself.
* `compiledEntry_eq_iff`: which functions have the same entry.
* `shows_name_less_quotes`: the name in what a registered function tells.
-/
namespace CallContract

open Console Console.Entry

/-! ## Quotes -/

namespace Console.Entry

/-- The text has a double quote at each end. -/
def BetweenQuotes (s : String) : Prop := ∃ inner, s = "\"" ++ inner ++ "\""

theorem unquote_between (inner : String) : unquote ("\"" ++ inner ++ "\"") = inner := by
  have hs : "\"" ++ inner ++ "\"" = String.ofList ('"' :: inner.toList ++ ['"']) := by
    rw [← String.toList_inj]
    simp
  rw [hs, unquote_of_ends, String.ofList_toList]

theorem unquote_of_not_betweenQuotes {s : String} (h : ¬BetweenQuotes s) : unquote s = s := by
  unfold unquote
  split
  · rename_i rest hs
    split
    · rename_i hlast
      refine absurd ⟨String.ofList rest.dropLast, ?_⟩ h
      have hrest : rest.dropLast ++ ['"'] = rest := List.dropLast_append_getLast? '"' hlast
      rw [← String.toList_inj, hs]
      simp [hrest]
    · rfl
  · rfl

theorem unquote_eq_self_iff (s : String) : unquote s = s ↔ ¬BetweenQuotes s := by
  refine ⟨?_, unquote_of_not_betweenQuotes⟩
  rintro h ⟨inner, rfl⟩
  rw [unquote_between] at h
  have hlength := congrArg String.length h
  simp only [String.length_append, show "\"".length = 1 from rfl] at hlength
  omega

end Console.Entry

/-! ## Entries with a name -/

namespace Console

/-- The codes before the name of a function. -/
def styleOn : String := "\x1b[1m\x1b[37m"

/-- The codes behind the name of a function. -/
def styleOff : String := "\x1b[39m\x1b[0m"

theorem shownFunction_eq (function : String) :
    shownFunction function = styleOn ++ unquote function ++ styleOff := by
  rw [shownFunction, styleOn, styleOff, ← String.toList_inj]
  simp

end Console

namespace Event

def function : Event → String
  | .compiled function .. => function
  | .callRejected function _ => function
  | .checked function .. => function
  | .violated function .. => function
  | .tolerated function _ => function

/-- Whether the event is written with the name of the function: all but single checks are. -/
def namesFunction : Event → Bool
  | .checked .. => false
  | _ => true

/-- What is written before the name. -/
def beforeName : Event → String
  | .compiled .. => bold (Colour.brightGreen.paint "✔") ++ " compiled "
  | .callRejected .. | .violated .. => bold (Colour.brightRed.paint "✘") ++ " "
  | .tolerated .. => bold (Colour.brightYellow.paint "⚠") ++ " "
  | .checked .. => ""

/-- What is written behind the name. -/
def behindName : Event → String
  | .compiled _ params checks =>
    " │ " ++ Colour.brightYellow.paint (toString params) ++ " params │ " ++
      Colour.brightYellow.paint (toString checks) ++ " checks\n"
  | .callRejected _ rejection =>
    " │ " ++ Colour.brightRed.paint "binding rejected" ++ " │ " ++
      Colour.brightBlack.paint rejection.message ++ "\n"
  | .violated _ param failure =>
    " │ " ++ Colour.brightMagenta.paint failure.kind.name ++ " │ param " ++
      Colour.cyan.paint param.text ++ "\n    " ++ Colour.brightBlack.paint failure.message ++ "\n"
  | .tolerated _ failure =>
    " │ " ++ Colour.brightMagenta.paint failure.kind.name ++ "\n    " ++
      Colour.brightBlack.paint failure.message ++ "\n"
  | .checked .. => ""

/-- The entry of the event with this text in the place of the name. -/
def entryNaming (e : Event) (shown : String) : String :=
  e.beforeName ++ styleOn ++ shown ++ styleOff ++ e.behindName

theorem entry_eq {e : Event} (h : e.namesFunction = true) :
    e.entry = e.entryNaming (unquote e.function) := by
  cases e with
  | checked => cases h
  | compiled function params checks =>
    simp [entry, compiledEntry_eq_paint, shownFunction_eq, entryNaming, beforeName, behindName,
      Event.function, String.append_assoc]
  | callRejected function rejection =>
    simp [entry, rejectionEntry_eq_paint, shownFunction_eq, entryNaming, beforeName, behindName,
      Event.function, String.append_assoc]
  | violated function param failure =>
    simp [entry, violationEntry_eq_paint, shownFunction_eq, entryNaming, beforeName, behindName,
      Event.function, String.append_assoc]
  | tolerated function failure =>
    simp [entry, warningEntry_eq_paint, shownFunction_eq, entryNaming, beforeName, behindName,
      Event.function, String.append_assoc]

end Event

/-! ## Entries of compiled functions -/

namespace Console

/-- The code before a count. -/
def countOn : String := "\x1b[93m"

theorem toList_compiledEntry (function : String) (params checks : Nat) :
    (compiledEntry function params checks).toList =
      ((bold (Colour.brightGreen.paint "✔") ++ " compiled " ++ styleOn).toList ++
          (unquote function).toList ++ (styleOff ++ " │ ").toList ++ countOn.toList ++
          (toString params).toList ++ "\x1b[39m params │ ".toList) ++ countOn.toList ++
        (toString checks).toList ++ "\x1b[39m checks\n".toList := by
  have hcode : toString Colour.brightYellow.code = "93" := rfl
  rw [compiledEntry_eq_paint, shownFunction_eq, countOn]
  simp [Colour.paint, hcode]

/-- The counts are read from the end, and what is left is the name. -/
theorem compiledEntry_eq_iff {function function' : String} {params params' checks checks' : Nat} :
    compiledEntry function params checks = compiledEntry function' params' checks' ↔
      unquote function = unquote function' ∧ params = params' ∧ checks = checks' := by
  have hcode : countOn.toList.getLast? = some 'm' := rfl
  refine ⟨fun h => ?_, ?_⟩
  · rw [← String.toList_inj, toList_compiledEntry, toList_compiledEntry] at h
    obtain ⟨hrest, hchecks⟩ := Text.eq_of_append_nat_eq _ hcode rfl h
    obtain ⟨hname, hparams⟩ := Text.eq_of_append_nat_eq _ hcode rfl hrest
    exact ⟨String.toList_inj.1 (List.append_cancel_left (List.append_cancel_right hname)), hparams,
      hchecks⟩
  · rintro ⟨hname, rfl, rfl⟩
    rw [compiledEntry_eq_paint, compiledEntry_eq_paint, shownFunction_eq, shownFunction_eq, hname]

end Console

/-! ## What a function tells -/

namespace Contract

variable {c : Contract} {e : Event}

theorem function_of_mem_examineAll {pairs : List (Bound × Check)}
    (h : e ∈ (c.examineAll pairs).1) : e.function = c.name := by
  -- A pair that passes tells one event before those of the rest, one that does not the last two.
  induction pairs with
  | nil => cases h
  | cons pair rest ih =>
    rw [examineAll_cons] at h
    split at h
    · rcases List.mem_cons.1 h with rfl | h
      · rfl
      · exact ih h
    · simp only [stoppedAt, List.map_nil, List.nil_append, List.mem_cons, List.not_mem_nil,
        or_false] at h
      rcases h with rfl | rfl <;> rfl

theorem function_of_mem_examine {call : Call} (h : e ∈ (c.examine call).1) :
    e.function = c.name := by
  unfold examine at h
  split at h
  · obtain rfl := List.mem_singleton.1 h
    rfl
  · exact function_of_mem_examineAll h

end Contract

namespace Guarded

/-- The function tells the event: when it is registered, on a call examined, or on one made under
some policy. -/
inductive Tells (g : Guarded) (e : Event) : Prop where
  | registered (h : e ∈ registrationEvents (.ok g))
  | examined {c : Call} (h : e ∈ (g.contract.examine c).1)
  | running {policy : Policy} {c : Call} {events : List Event}
    (h : (g.withPolicy policy).Runs c events) (he : e ∈ events)
  | stopping {policy : Policy} {c : Call} {events : List Event} {failure : Failure}
    (h : (g.withPolicy policy).Stops c events failure) (he : e ∈ events)

theorem function_of_mem_decide {g : Guarded} {c : Call} {e : Event} (h : e ∈ (g.decide c).1) :
    e.function = g.name := by
  have hexamine (he : e ∈ (g.contract.examine c).1) : e.function = g.name :=
    Contract.function_of_mem_examine he
  unfold decide at h
  split at h
  · cases h
  · exact hexamine h
  · split at h
    next events he => exact hexamine (he ▸ h)
    next events failure he =>
      split at h
      · rcases List.mem_append.1 h with h | h
        · exact hexamine (he ▸ h)
        · obtain rfl := List.mem_singleton.1 h
          rfl
      · exact hexamine (he ▸ h)

theorem function_of_tells {g : Guarded} {e : Event} (h : g.Tells e) : e.function = g.name := by
  cases h with
  | registered h =>
    obtain rfl := List.mem_singleton.1 h
    rfl
  | examined h => exact Contract.function_of_mem_examine h
  | @running policy c events h he =>
    have hmem : e ∈ ((g.withPolicy policy).decide c).1 := by rwa [runs_iff_decide.1 h]
    have hname : e.function = (g.withPolicy policy).name := function_of_mem_decide hmem
    exact hname
  | @stopping policy c events failure h he =>
    have hmem : e ∈ ((g.withPolicy policy).decide c).1 := by rwa [stops_iff_decide.1 h]
    have hname : e.function = (g.withPolicy policy).name := function_of_mem_decide hmem
    exact hname

/-- Every log writes this text in the place of the name, in each entry that has one. -/
def Shows (g : Guarded) (shown : String) : Prop :=
  ∀ e, g.Tells e → e.namesFunction = true →
    ∀ f : Filter, f.line e.record = f.kept e.level (e.entryNaming shown)

theorem tells_registered (g : Guarded) : g.Tells g.contract.registered :=
  .registered List.mem_cons_self

theorem shows_unquote (g : Guarded) : g.Shows (unquote g.name) := by
  intro e he hn f
  rw [Filter.line_record, Event.entry_eq hn, function_of_tells he]

theorem shows_unique {g : Guarded} {shown shown' : String} (h : g.Shows shown)
    (h' : g.Shows shown') : shown = shown' := by
  have he : g.contract.registered.entryNaming shown = g.contract.registered.entryNaming shown' :=
    (h _ g.tells_registered rfl (.upTo .trace)).symm.trans (h' _ g.tells_registered rfl _)
  rw [Event.entryNaming, Event.entryNaming, ← String.toList_inj] at he
  simp only [String.toList_append, List.append_assoc] at he
  exact String.toList_inj.1
    (List.append_cancel_right (List.append_cancel_left (List.append_cancel_left he)))

theorem line_registered {name : String} {params : List Param} {g : Guarded}
    (h : register name params = .ok g) {f : Filter} (hf : f.keeps .debug = true) :
    f.line g.contract.registered.record =
      compiledEntry name params.length g.contract.checkCount := by
  rw [Filter.line_record, Contract.registered, Signature.ofParams_params (register_eq_ok h).1,
    show g.contract.name = name from (register_keeps h).1]
  exact if_pos hf

/-- Entries show the name of a registered function as it is unless it stands between double quotes,
and what is between them if it does. Two functions have the same entry when they are compiled
exactly if they have the same name up to such quotes and the same counts. -/
theorem shows_name_less_quotes {name : String} {params : List Param} {g : Guarded}
    (h : register name params = .ok g) :
    (g.Shows name ↔ ¬BetweenQuotes name) ∧
    (∀ inner, name = "\"" ++ inner ++ "\"" → g.Shows inner) ∧
    ∀ {name' : String} {params' : List Param} {g' : Guarded}, register name' params' = .ok g' →
      ∀ f : Filter, f.keeps .debug = true →
        (f.line g.contract.registered.record = f.line g'.contract.registered.record ↔
          unquote name = unquote name' ∧ params.length = params'.length ∧
            g.contract.checkCount = g'.contract.checkCount) := by
  have hshows : g.Shows (unquote name) := (register_keeps h).1 ▸ g.shows_unquote
  refine ⟨?_, ?_, ?_⟩
  · rw [← unquote_eq_self_iff]
    refine ⟨fun hname => shows_unique hshows hname, fun hname => ?_⟩
    rwa [hname] at hshows
  · rintro inner rfl
    rwa [unquote_between] at hshows
  · intro name' params' g' h' f hf
    rw [line_registered h hf, line_registered h' hf, compiledEntry_eq_iff]

/-- A function whose name is between quotes is shown under the name of another one. -/
theorem quoted_name_shown_bare :
    ∃ g g', register "\"f\"" [] = .ok g ∧ register "f" [] = .ok g' ∧ ¬g.Shows "\"f\"" ∧
      g.Shows "f" ∧
      (Filter.upTo .debug).line g.contract.registered.record =
        (Filter.upTo .debug).line g'.contract.registered.record := by
  obtain ⟨g, hg⟩ : ∃ g, register "\"f\"" [] = .ok g := ⟨_, rfl⟩
  obtain ⟨g', hg'⟩ : ∃ g', register "f" [] = .ok g' := ⟨_, rfl⟩
  have hquotes : "\"f\"" = "\"" ++ "f" ++ "\"" := by decide
  obtain ⟨hshows, hinner, hline⟩ := shows_name_less_quotes hg
  refine ⟨g, g', hg, hg', ?_, hinner "f" hquotes, ?_⟩
  · exact fun hs => hshows.1 hs ⟨"f", hquotes⟩
  · refine (hline hg' (.upTo .debug) rfl).2 ⟨?_, rfl, ?_⟩
    · decide
    · cases hg
      cases hg'
      rfl

end Guarded
end CallContract
