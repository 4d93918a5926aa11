import CallContract.Console.Log
import CallContract.Event

/-!
# What the console writes of events

Events reach the console as records, fields with names, and the console finds its way from there
back to a text. Here the text is said event by event (`Event.entry`): a check is one line with a
tick or a cross, a violation is a cross with its report on a line of its own, a warning is the same
behind a warning sign and without the parameter, a rejected call is one line behind a cross. A log
writes these texts for the events of the levels that it keeps, and nothing else.

**Codes.** The texts are said letter for letter, with the codes of the terminal in their places: a
colour begins with its number and ends with 39, what is bold stands between 1 and 0.

**Quotes.** The console takes a pair of double quotes off what it is shown. The texts of parameters,
checks, kinds and failures begin with no quote and so stand as they are; a function whose own name
is between quotes is shown without them.

**Results.**
* `Colour.paint_eq`: the codes of each colour.
* `line_record`: what a log writes of one event.
* `written_events`: what a log writes of events in a row.
-/
namespace CallContract

open Console Console.Entry

/-! ## Texts that open with no quote -/

namespace Console.Entry

/-- The text begins with something else than a double quote. -/
def opensPlain (s : String) : Bool :=
  match s.toList with
  | [] => false
  | c :: _ => c ≠ '"'

theorem opensPlain_append {s : String} (t : String) (h : opensPlain s = true) :
    opensPlain (s ++ t) = true := by
  rw [opensPlain] at h ⊢
  rw [String.toList_append]
  split at h
  · cases h
  · rename_i hs
    simpa [hs] using h

theorem opensPlain_ofList {c : Char} (cs : List Char) (h : c ≠ '"') :
    opensPlain (String.ofList (c :: cs)) = true := by
  rw [opensPlain, String.toList_ofList]
  exact decide_eq_true h

theorem unquote_of_opensPlain {s : String} (h : opensPlain s = true) : unquote s = s := by
  rw [opensPlain] at h
  rw [unquote]
  split
  · rename_i hs
    simp [hs] at h
  · rfl

@[simp] theorem unquote_param (p : ParamRef) : unquote p.text = p.text := by
  refine unquote_of_opensPlain ?_
  unfold ParamRef.text
  repeat first | with_reducible apply opensPlain_append | exact opensPlain_ofList _ (by decide)

@[simp] theorem unquote_check (c : Check) : unquote c.text = c.text := by
  refine unquote_of_opensPlain ?_
  unfold Check.text
  refine opensPlain_append _ ?_
  cases c.kind <;> exact opensPlain_ofList _ (by decide)

@[simp] theorem unquote_kind (k : Failure.Kind) : unquote k.name = k.name := by
  cases k <;> exact unquote_of_opensPlain (opensPlain_ofList _ (by decide))

-- Each message is a chain of appended texts, and the first of them is fixed.
@[simp] theorem unquote_rejection (r : Rejection) : unquote r.message = r.message := by
  refine unquote_of_opensPlain ?_
  unfold Rejection.message
  split <;>
    repeat first | with_reducible apply opensPlain_append | exact opensPlain_ofList _ (by decide)

@[simp] theorem unquote_failure (e : Failure) : unquote e.message = e.message := by
  refine unquote_of_opensPlain ?_
  unfold Failure.message
  split <;>
    repeat first | with_reducible apply opensPlain_append | exact opensPlain_ofList _ (by decide)

end Console.Entry

/-! ## Texts of events -/

namespace Console

/-- A function as entries show it, bold and white. -/
def shownFunction (function : String) : String :=
  "\x1b[1m" ++ "\x1b[37m" ++ unquote function ++ "\x1b[39m" ++ "\x1b[0m"

/-- A tick in green or a cross in red, the position and name of the parameter in grey, the check. -/
def checkLine (passed : Bool) (param : ParamRef) (check : Check) : String :=
  "  " ++ (if passed then "\x1b[32m" ++ "✓" else "\x1b[31m" ++ "✗") ++ "\x1b[39m" ++ " " ++
    "\x1b[90m" ++ "[" ++ toString param.index ++ "]='" ++ param.name ++ "'" ++ "\x1b[39m" ++ " " ++
    check.text ++ "\n"

def compiledEntry (function : String) (params checks : Nat) : String :=
  "\x1b[1m" ++ "\x1b[92m" ++ "✔" ++ "\x1b[39m" ++ "\x1b[0m" ++ " compiled " ++
    shownFunction function ++ " │ " ++
    "\x1b[93m" ++ toString params ++ "\x1b[39m" ++ " params │ " ++
    "\x1b[93m" ++ toString checks ++ "\x1b[39m" ++ " checks" ++ "\n"

def rejectionEntry (function : String) (rejection : Rejection) : String :=
  "\x1b[1m" ++ "\x1b[91m" ++ "✘" ++ "\x1b[39m" ++ "\x1b[0m" ++ " " ++ shownFunction function ++
    " │ " ++ "\x1b[91m" ++ "binding rejected" ++ "\x1b[39m" ++
    " │ " ++ "\x1b[90m" ++ rejection.message ++ "\x1b[39m" ++ "\n"

def violationEntry (function : String) (param : ParamRef) (failure : Failure) : String :=
  "\x1b[1m" ++ "\x1b[91m" ++ "✘" ++ "\x1b[39m" ++ "\x1b[0m" ++ " " ++ shownFunction function ++
    " │ " ++ "\x1b[95m" ++ failure.kind.name ++ "\x1b[39m" ++
    " │ param " ++ "\x1b[36m" ++ "[" ++ toString param.index ++ "]='" ++ param.name ++ "'" ++
    "\x1b[39m" ++ "\n    " ++ "\x1b[90m" ++ failure.message ++ "\x1b[39m" ++ "\n"

/-- A failure let pass; the parameter is named by the report alone. -/
def warningEntry (function : String) (failure : Failure) : String :=
  "\x1b[1m" ++ "\x1b[93m" ++ "⚠" ++ "\x1b[39m" ++ "\x1b[0m" ++ " " ++ shownFunction function ++
    " │ " ++ "\x1b[95m" ++ failure.kind.name ++ "\x1b[39m" ++
    "\n    " ++ "\x1b[90m" ++ failure.message ++ "\x1b[39m" ++ "\n"

/-! ### Entries in the styles of the console

The codes are folded back into colours. Definitions are opened by `unfold`, as the equations that
`rw` and `simp` would use are slow to derive for texts with codes.
-/

/-- The code of each colour, and the one that ends them all. -/
theorem Colour.paint_eq (c : Colour) (s : String) :
    c.paint s = (match c with
      | .red => "\x1b[31m"
      | .green => "\x1b[32m"
      | .cyan => "\x1b[36m"
      | .white => "\x1b[37m"
      | .brightBlack => "\x1b[90m"
      | .brightRed => "\x1b[91m"
      | .brightGreen => "\x1b[92m"
      | .brightYellow => "\x1b[93m"
      | .brightMagenta => "\x1b[95m") ++ s ++ "\x1b[39m" := by
  cases c <;> rfl

theorem shownFunction_eq_paint (function : String) :
    shownFunction function = bold (Colour.white.paint (unquote function)) := by
  unfold shownFunction
  simp only [bold, Colour.paint_eq, String.append_assoc]

theorem checkLine_eq_paint (passed : Bool) (param : ParamRef) (check : Check) :
    checkLine passed param check =
      "  " ++ (if passed then Colour.green.paint "✓" else Colour.red.paint "✗") ++ " " ++
        Colour.brightBlack.paint param.text ++ " " ++ check.text ++ "\n" := by
  unfold checkLine
  cases passed <;>
    simp only [Colour.paint_eq, ParamRef.text, String.append_assoc, Bool.false_eq_true, if_false,
      if_true]

theorem compiledEntry_eq_paint (function : String) (params checks : Nat) :
    compiledEntry function params checks =
      bold (Colour.brightGreen.paint "✔") ++ " compiled " ++ shownFunction function ++ " │ " ++
        Colour.brightYellow.paint (toString params) ++ " params │ " ++
        Colour.brightYellow.paint (toString checks) ++ " checks" ++ "\n" := by
  unfold compiledEntry
  simp only [bold, Colour.paint_eq, String.append_assoc]

theorem rejectionEntry_eq_paint (function : String) (rejection : Rejection) :
    rejectionEntry function rejection =
      bold (Colour.brightRed.paint "✘") ++ " " ++ shownFunction function ++ " │ " ++
        Colour.brightRed.paint "binding rejected" ++ " │ " ++
        Colour.brightBlack.paint rejection.message ++ "\n" := by
  unfold rejectionEntry
  simp only [bold, Colour.paint_eq, String.append_assoc]

theorem violationEntry_eq_paint (function : String) (param : ParamRef) (failure : Failure) :
    violationEntry function param failure =
      bold (Colour.brightRed.paint "✘") ++ " " ++ shownFunction function ++ " │ " ++
        Colour.brightMagenta.paint failure.kind.name ++ " │ param " ++
        Colour.cyan.paint param.text ++ "\n    " ++ Colour.brightBlack.paint failure.message ++
        "\n" := by
  unfold violationEntry
  simp only [bold, Colour.paint_eq, ParamRef.text, String.append_assoc]

theorem warningEntry_eq_paint (function : String) (failure : Failure) :
    warningEntry function failure =
      bold (Colour.brightYellow.paint "⚠") ++ " " ++ shownFunction function ++ " │ " ++
        Colour.brightMagenta.paint failure.kind.name ++ "\n    " ++
        Colour.brightBlack.paint failure.message ++ "\n" := by
  unfold warningEntry
  simp only [bold, Colour.paint_eq, String.append_assoc]

end Console

namespace Event

/-- What is written of the event where its level is kept. -/
def entry : Event → String
  | .compiled function params checks => compiledEntry function params checks
  | .callRejected function rejection => rejectionEntry function rejection
  | .checked _ param _ check passed => checkLine passed param check
  | .violated function param failure => violationEntry function param failure
  | .tolerated function failure => warningEntry function failure

/-- What the console makes of the fields of the event. -/
def shown : Event → Entry
  | .compiled function params checks =>
    { Entry.empty with
      event := some "compile", function := some (unquote function), params := some params,
      checks := some checks }
  | .callRejected function rejection =>
    { Entry.empty with
      event := some "bind_rejected", function := some (unquote function),
      error := some rejection.message }
  | .checked function param _ check passed =>
    { Entry.empty with
      event := some "check", function := some (unquote function), param := some param.text,
      check := some check.text, passed := some passed }
  | .violated function param failure =>
    { Entry.empty with
      event := some "violation", function := some (unquote function),
      kind := some failure.kind.name, param := some param.text, error := some failure.message }
  | .tolerated function failure =>
    { Entry.empty with
      event := some "violation", function := some (unquote function),
      kind := some failure.kind.name, error := some failure.message }

theorem ofFields_record (e : Event) : Entry.ofFields e.record.fields = e.shown := by
  cases e <;> simp [record, fields, shown, Entry.ofFields, Entry.keep, Entry.keepText]

theorem text?_shown (e : Event) : (e.shown.text? e.level).map (· ++ "\n") = some e.entry := by
  cases e with
  | compiled function params checks =>
    simp [shown, Entry.text?, Entry.compileText, functionText, entry, compiledEntry_eq_paint,
      shownFunction_eq_paint]
  | callRejected function rejection =>
    simp [shown, Entry.text?, Entry.rejectionText, failureMark, level, functionText, entry,
      rejectionEntry_eq_paint, shownFunction_eq_paint]
  | checked function param source check passed =>
    simp [shown, Entry.text?, Entry.checkText, level, entry, checkLine_eq_paint]
  | violated function param failure =>
    simp [shown, Entry.text?, Entry.violationText, failureMark, level, functionText, entry,
      violationEntry_eq_paint, shownFunction_eq_paint, String.append_assoc]
  | tolerated function failure =>
    simp [shown, Entry.text?, Entry.violationText, Entry.empty, failureMark, level, functionText,
      entry, warningEntry_eq_paint, shownFunction_eq_paint, String.append_assoc]

theorem isShownTarget_record (e : Event) : isShownTarget e.record.target = true := by
  change isShownTarget e.target = true
  unfold target
  split <;> decide +kernel

end Event

/-! ## Logs -/

namespace Console.Filter

/-- Whether the log keeps what is of a level. -/
def keeps : Filter → Level → Bool
  | .off, _ => false
  | .upTo least, l => least.covers l
  | .byDefault, l => Level.info.covers l

/-- A text of a level; nothing where the log does not keep the level. -/
def kept (f : Filter) (l : Level) (text : String) : String := if f.keeps l then text else ""

theorem kept_append (f : Filter) (l : Level) (s t : String) :
    f.kept l (s ++ t) = f.kept l s ++ f.kept l t := by
  rw [kept, kept, kept]
  split
  · rfl
  · simp

theorem join_kept {α : Type} (f : Filter) (l : Level) (text : α → String) (xs : List α) :
    String.join (xs.map fun x => f.kept l (text x)) = f.kept l (String.join (xs.map text)) := by
  induction xs with
  | nil => simp [kept]
  | cons x xs ih => simp [kept_append, ih]

theorem accepts_record (f : Filter) (e : Event) : f.accepts e.record = f.keeps e.level := by
  cases f with
  | off => rfl
  | upTo least => rfl
  | byDefault => rw [accepts, e.isShownTarget_record, Bool.and_true]; rfl

/-- A log writes the entry of an event if it keeps its level. -/
theorem line_record (f : Filter) (e : Event) : f.line e.record = f.kept e.level e.entry := by
  have he := e.text?_shown
  rw [line, accepts_record, e.isShownTarget_record, Bool.and_true, e.ofFields_record, kept]
  split
  · obtain ⟨text, ht, htext⟩ := Option.map_eq_some_iff.1 he
    rw [show e.record.level = e.level from rfl, ht]
    exact htext
  · rfl

theorem written_events (f : Filter) (events : List Event) :
    f.written (events.map Event.record) =
      String.join (events.map fun e => f.kept e.level e.entry) := by
  induction events with
  | nil => simp [written]
  | cons e events ih =>
    rw [List.map_cons, written, line_record, ih, List.map_cons, String.join_cons]

end Console.Filter
end CallContract
