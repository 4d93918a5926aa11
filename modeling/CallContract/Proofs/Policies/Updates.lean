import CallContract.Policy
import Mathlib.Data.List.Induction

/-!
# Updates of policies

A policy is built from the initial one by updates in a row: a mode for all functions, or an override
for one of them, with a mode of its own or without. Whatever their order, the mode in effect for a
function is that of the last override under its name, if this one carries a mode, and else the last
mode given for all. So an override without a mode takes an earlier one back, overrides under other
names have no part in it, however close the names are, and neither have modes for all where the last
override carries a mode.

**Updates.** `updated` is the policy behind some updates. What its fields hold is said one update at
a time (`lastMode?_concat`, `lastOverride?_concat`), and of all updates by induction from the end.

**Results.**
* `isBlank_iff`: blank names, character by character.
* `mode_updated`, `lookup_updated`, `mem_names_updated`: what updates leave in a policy.
* `modeFor_updated`: the mode in effect behind any updates.
* `validate_updated`: the policy is valid exactly when no name given is blank.
* `updates_resolve`: the whole of it.
-/
namespace CallContract

/-! ## Blank names -/

namespace Text

/-- The code points of white space, one by one. -/
def whiteSpaceCodes : List Nat :=
  [0x9, 0xa, 0xb, 0xc, 0xd, 0x20, 0x85, 0xa0, 0x1680, 0x2000, 0x2001, 0x2002, 0x2003, 0x2004,
    0x2005, 0x2006, 0x2007, 0x2008, 0x2009, 0x200a, 0x2028, 0x2029, 0x202f, 0x205f, 0x3000]

theorem isWhiteSpace_iff (c : Char) : isWhiteSpace c = true ↔ c.toNat ∈ whiteSpaceCodes := by
  simp only [isWhiteSpace, whiteSpace, whiteSpaceCodes, List.any_cons, List.any_nil, Bool.or_false,
    Bool.or_eq_true, Bool.and_eq_true, decide_eq_true_eq, List.mem_cons, List.not_mem_nil, or_false]
  omega

/-- Nothing, or white space and nothing else. -/
def Blank (s : String) : Prop := s = "" ∨ ∀ c ∈ s.toList, c.toNat ∈ whiteSpaceCodes

theorem isBlank_iff (s : String) : isBlank s = true ↔ Blank s := by
  simp only [isBlank, List.all_eq_true, isWhiteSpace_iff]
  refine ⟨.inr, ?_⟩
  rintro (rfl | h)
  · exact fun c hc => (nomatch hc)
  · exact h

end Text

namespace Policy

/-! ## Updates in a row -/

inductive Update where
  /-- A mode for all functions. -/
  | modeForAll (m : Mode)
  /-- An override for a function, with a mode or without. -/
  | override (name : String) (mode : Option Mode)
deriving DecidableEq, Repr

/-- The mode for all functions that the update gives. -/
def Update.mode? : Update → Option Mode
  | .modeForAll m => some m
  | .override .. => none

/-- What the update overrides the function of this name with. -/
def Update.overrideOf? (name : String) : Update → Option (Option Mode)
  | .modeForAll _ => none
  | .override other mode => if other = name then some mode else none

def update (p : Policy) : Update → Policy
  | .modeForAll m => p.withMode m
  | .override name mode => p.withOverride name mode

/-- The policy behind the updates, from the first to the last. -/
def updated (p : Policy) (us : List Update) : Policy := us.foldl update p

/-- The last mode given for all functions. -/
def lastMode? (us : List Update) : Option Mode := (us.filterMap Update.mode?).getLast?

/-- The last override given for the function of this name. -/
def lastOverride? (us : List Update) (name : String) : Option (Option Mode) :=
  (us.filterMap (Update.overrideOf? name)).getLast?

theorem updated_concat (p : Policy) (us : List Update) (u : Update) :
    p.updated (us ++ [u]) = (p.updated us).update u := by
  rw [updated, List.foldl_append]
  rfl

theorem lastMode?_concat (us : List Update) (u : Update) :
    lastMode? (us ++ [u]) = u.mode?.or (lastMode? us) := by
  rw [lastMode?, List.filterMap_append]
  cases h : u.mode? with
  | none => simp [h, lastMode?]
  | some m => simp [h]

theorem lastOverride?_concat (us : List Update) (u : Update) (name : String) :
    lastOverride? (us ++ [u]) name = (u.overrideOf? name).or (lastOverride? us name) := by
  rw [lastOverride?, List.filterMap_append]
  cases h : u.overrideOf? name with
  | none => simp [h, lastOverride?]
  | some mode => simp [h]

/-! ## What updates leave -/

theorem mode_updated (us : List Update) :
    (initial.updated us).mode = (lastMode? us).getD .enforce := by
  induction us using List.reverseRecOn with
  | nil => rfl
  | append_singleton us u ih =>
    rw [updated_concat, lastMode?_concat]
    cases u with
    | modeForAll m => rfl
    | override name mode => exact ih

theorem lookup_updated (us : List Update) (name : String) :
    (initial.updated us).overrides.lookup name = lastOverride? us name := by
  induction us using List.reverseRecOn with
  | nil => rfl
  | append_singleton us u ih =>
    rw [updated_concat, lastOverride?_concat]
    cases u with
    | modeForAll m => exact ih
    | override other mode =>
      rw [update, withOverride, lookup_insert, Update.overrideOf?, ih]
      by_cases h : name = other
      · simp [h]
      · simp [h, Ne.symm h]

theorem mem_names_insert {name sought : String} {mode : Option Mode}
    {entries : List (String × Option Mode)} :
    sought ∈ (insert name mode entries).map (·.1) ↔
      sought = name ∨ sought ∈ entries.map (·.1) := by
  induction entries with
  | nil => simp [insert]
  | cons entry rest ih =>
    obtain ⟨other, kept⟩ := entry
    rw [insert]
    split
    next h => simp [h]
    next =>
      split
      next => simp
      next =>
        rw [List.map_cons, List.mem_cons, ih, List.map_cons, List.mem_cons]
        exact or_left_comm

/-- The names with an override are those given, blank or not. -/
theorem mem_names_updated {us : List Update} {name : String} :
    name ∈ (initial.updated us).overrides.map (·.1) ↔ ∃ mode, Update.override name mode ∈ us := by
  induction us using List.reverseRecOn with
  | nil => simp [updated, initial]
  | append_singleton us u ih =>
    rw [updated_concat]
    cases u with
    | modeForAll m =>
      rw [update, withMode, ih]
      simp
    | override other mode =>
      rw [update, withOverride, mem_names_insert, ih]
      simp [exists_or, or_comm]

/-! ## Resolution -/

theorem modeFor_updated (us : List Update) (name : String) :
    (initial.updated us).modeFor name =
      (lastOverride? us name).join.getD ((lastMode? us).getD .enforce) := by
  rw [modeFor, lookup_updated, mode_updated]

/-- An override under another name is no part of the resolution. -/
theorem modeFor_updated_of_ne {name other : String} (h : other ≠ name) (mode : Option Mode)
    (before after : List Update) :
    (initial.updated (before ++ .override other mode :: after)).modeFor name =
      (initial.updated (before ++ after)).modeFor name := by
  rw [modeFor_updated, modeFor_updated]
  simp [lastOverride?, lastMode?, Update.overrideOf?, Update.mode?, h]

/-- A mode for all functions is no part of it where the last override carries a mode. -/
theorem modeFor_updated_of_override {name : String} {kept m : Mode} {before after : List Update}
    (h : lastOverride? (before ++ .modeForAll m :: after) name = some (some kept)) :
    (initial.updated (before ++ .modeForAll m :: after)).modeFor name =
      (initial.updated (before ++ after)).modeFor name := by
  have hrest : lastOverride? (before ++ after) name = some (some kept) := by
    rw [← h]
    simp [lastOverride?, Update.overrideOf?]
  rw [modeFor_updated, modeFor_updated, h, hrest]
  rfl

theorem validate_updated (us : List Update) :
    (initial.updated us).validate = .ok (initial.updated us) ↔
      ∀ name mode, Update.override name mode ∈ us → ¬Text.Blank name := by
  have hvalidate : (initial.updated us).validate = .ok (initial.updated us) ↔
      (initial.updated us).invalidName? = none := by
    unfold validate
    split
    next h => simp [h]
    next h => simp [h]
  rw [hvalidate, invalidName?, List.find?_eq_none]
  simp only [mem_names_updated, Text.isBlank_iff]
  refine ⟨?_, ?_⟩
  · intro h name mode hmem
    exact h name ⟨mode, hmem⟩
  · rintro h name ⟨mode, hmem⟩
    exact h name mode hmem

/-- Behind any updates the mode in effect for a function is that of the last override under its
name, if it carries one, and in every other case the last mode given for all, or enforcement.
Updates under other names change nothing of that, nor do modes for all beside an override that
carries a mode, and the policy is valid exactly when no name given is blank. -/
theorem updates_resolve (us : List Update) (name : String) :
    (∀ m, lastOverride? us name = some (some m) → (initial.updated us).modeFor name = m) ∧
    ((∀ m, lastOverride? us name ≠ some (some m)) →
      (initial.updated us).modeFor name = (lastMode? us).getD .enforce) ∧
    (∀ before other mode after, us = before ++ .override other mode :: after → other ≠ name →
      (initial.updated us).modeFor name = (initial.updated (before ++ after)).modeFor name) ∧
    (∀ before m after kept, us = before ++ .modeForAll m :: after →
      lastOverride? us name = some (some kept) →
      (initial.updated us).modeFor name = (initial.updated (before ++ after)).modeFor name) ∧
    ((initial.updated us).validate = .ok (initial.updated us) ↔
      ∀ other mode, Update.override other mode ∈ us → ¬Text.Blank other) := by
  refine ⟨?_, ?_, ?_, ?_, validate_updated us⟩
  · intro m h
    rw [modeFor_updated, h]
    rfl
  · intro h
    rw [modeFor_updated]
    match hlast : lastOverride? us name with
    | none => rfl
    | some none => rfl
    | some (some m) => exact absurd hlast (h m)
  · rintro before other mode after rfl h
    exact modeFor_updated_of_ne h mode before after
  · rintro before m after kept rfl h
    exact modeFor_updated_of_override h

/-- A name with a blank behind it is another name, a later mode for all does not undo an override,
and an override without a mode does. -/
theorem padded_name_kept_apart :
    let us := [.override "f" (some .off), .override "f " (some .warn), .modeForAll .warn]
    (initial.updated us).modeFor "f" = .off ∧
      (initial.updated us).modeFor "f" =
        (initial.updated [.override "f" (some .off), .modeForAll .warn]).modeFor "f" ∧
      (initial.updated us).modeFor "f" =
        (initial.updated [.override "f" (some .off), .override "f " (some .warn)]).modeFor "f" ∧
      (initial.updated (us ++ [.override "f" none])).modeFor "f" = .warn := by
  intro us
  have hlast : lastOverride? us "f" = some (some .off) := by decide
  have hback : lastOverride? (us ++ [.override "f" none]) "f" = some none := by decide
  obtain ⟨hoverride, -, hother, hmode, -⟩ := updates_resolve us "f"
  refine ⟨hoverride .off hlast, ?_, ?_, ?_⟩
  · exact hother [.override "f" (some .off)] "f " (some .warn) [.modeForAll .warn] rfl (by decide)
  · exact hmode [.override "f" (some .off), .override "f " (some .warn)] .warn [] .off rfl hlast
  · exact (updates_resolve (us ++ [.override "f" none]) "f").2.1 fun m => by simp [hback]

end Policy
end CallContract
