import CallContract.Contract
import CallContract.Proofs.Constraints.Support

/-!
# The grammar of constraints

Which constraints compile is said by a grammar: a type, a sequence of a type, and either of them
refined any number of times, each time by at least one item. An item is a check other than a type
check, a kind that stands for one, or a group of at least one item. The compiler knows no grammar.
That the element of a sequence is a bare type comes of a count: a refinement has at least two checks
and a sequence has two.

**Rearrangement.** The items of a refinement may be put into groups and taken out of them, and two
refinements, one upon the other, may be made one (`Rearranges`). The checks come out the same, in
the same order; of constraints that do not compile, the same problem does.

**Results.**
* `isOk_checks_iff`: the grammar is that of the constraints that compile.
* `checks_eq_of_rearranges`: what compiles depends on the items alone and not on their arrangement.
* `compile_follows_grammar`: both, and what the checks are.
-/
namespace CallContract

theorem Check.isValueCheck_iff {c : Check} : c.isValueCheck = true ↔ c.category ≠ .type := by
  simp [isValueCheck]

theorem Check.Kind.exists_check?_iff {k : Kind} :
    (∃ c, k.check? = some c) ↔ k ∈ [nonEmpty, monotonicIncreasing, positive] := by
  cases k <;> simp [check?]

/-! ## Items -/

namespace Refinement

/-- The items that a refinement may list. -/
inductive WellFormed : Refinement → Prop where
  | check {c : Check} (h : c.category ≠ .type) : WellFormed (.check c)
  | kind {k : Check.Kind} (h : k ∈ [Check.Kind.nonEmpty, .monotonicIncreasing, .positive]) :
      WellFormed (.kind k)
  | group {items : List Refinement} (hne : items ≠ []) (h : ∀ item ∈ items, WellFormed item) :
      WellFormed (.group items)

theorem wellFormed_check {c : Check} : (check c).WellFormed ↔ c.category ≠ .type :=
  ⟨fun h => by cases h; assumption, .check⟩

theorem wellFormed_kind {k : Check.Kind} :
    (kind k).WellFormed ↔ k ∈ [Check.Kind.nonEmpty, .monotonicIncreasing, .positive] :=
  ⟨fun h => by cases h; assumption, .kind⟩

theorem wellFormed_group {items : List Refinement} :
    (group items).WellFormed ↔ items ≠ [] ∧ ∀ item ∈ items, item.WellFormed :=
  ⟨fun h => by cases h; constructor <;> assumption, fun h => .group h.1 h.2⟩

mutual

theorem isOk_checks_iff {item : Refinement} : (∃ cs, item.checks = .ok cs) ↔ item.WellFormed := by
  cases item with
  | check c =>
    simp only [checks_check_eq_ok, exists_and_left, exists_eq, and_true]
    rw [Check.isValueCheck_iff, wellFormed_check]
  | kind k =>
    rw [wellFormed_kind, ← Check.Kind.exists_check?_iff]
    simp only [checks_kind_eq_ok]
    exact ⟨fun ⟨_, c, hc, _⟩ => ⟨c, hc⟩, fun ⟨c, hc⟩ => ⟨_, c, hc, rfl⟩⟩
  | group items =>
    simp only [checks_group_eq_ok, exists_and_left]
    rw [isOk_checksOfAll_iff, wellFormed_group]

theorem isOk_checksOfAll_iff {items : List Refinement} :
    (∃ cs, checksOfAll items = .ok cs) ↔ ∀ item ∈ items, item.WellFormed := by
  cases items with
  | nil => simp [checksOfAll]
  | cons item items =>
    rw [List.forall_mem_cons, ← isOk_checks_iff, ← isOk_checksOfAll_iff]
    simp only [checksOfAll_cons_eq_ok]
    refine ⟨?_, ?_⟩
    · rintro ⟨_, ds, es, hd, he, -⟩
      exact ⟨⟨ds, hd⟩, es, he⟩
    · rintro ⟨⟨ds, hd⟩, es, he⟩
      exact ⟨_, ds, es, hd, he, rfl⟩

end

/-! ## Arrangements of items -/

/-- Two lists have the same items in the same order, in groups or not, at any depth. -/
inductive Regroups : List Refinement → List Refinement → Prop where
  | refl (items : List Refinement) : Regroups items items
  | symm {xs ys : List Refinement} (h : Regroups xs ys) : Regroups ys xs
  | trans {xs ys zs : List Refinement} (h : Regroups xs ys) (h' : Regroups ys zs) :
      Regroups xs zs
  | group (before : List Refinement) {items : List Refinement} (hne : items ≠ [])
      (after : List Refinement) :
      Regroups (before ++ items ++ after) (before ++ .group items :: after)
  | inside (before : List Refinement) {xs ys : List Refinement} (h : Regroups xs ys)
      (after : List Refinement) :
      Regroups (before ++ .group xs :: after) (before ++ .group ys :: after)

theorem checks_group_of_ne_nil {items : List Refinement} (h : items ≠ []) :
    (group items).checks = checksOfAll items := by
  rw [checks, if_neg (by simpa using h)]

theorem checksOfAll_append (xs ys : List Refinement) :
    checksOfAll (xs ++ ys) = do
      let cs ← checksOfAll xs
      let ds ← checksOfAll ys
      return cs ++ ds := by
  induction xs with
  | nil => cases h : checksOfAll ys <;> simp [checksOfAll, h, bind, Except.bind, pure, Except.pure]
  | cons x xs ih =>
    simp only [List.cons_append, checksOfAll, ih, bind_assoc, pure_bind, List.append_assoc]

theorem eq_nil_iff_of_regroups {xs ys : List Refinement} (h : Regroups xs ys) :
    xs = [] ↔ ys = [] := by
  induction h with
  | refl items => exact Iff.rfl
  | symm _ ih => exact ih.symm
  | trans _ _ ih ih' => exact ih.trans ih'
  | group before hne after => simp [hne]
  | inside before _ after => simp

theorem checksOfAll_eq_of_regroups {xs ys : List Refinement} (h : Regroups xs ys) :
    checksOfAll xs = checksOfAll ys := by
  induction h with
  | refl items => rfl
  | symm _ ih => exact ih.symm
  | trans _ _ ih ih' => exact ih.trans ih'
  | group before hne after =>
    rw [List.append_assoc, checksOfAll_append, checksOfAll_append before, checksOfAll_append,
      checksOfAll, checks_group_of_ne_nil hne]
  | inside before h after ih =>
    rename_i xs ys
    have hgroup : (group xs).checks = (group ys).checks := by
      by_cases hx : xs = []
      · rw [hx, (eq_nil_iff_of_regroups h).1 hx]
      · rw [checks_group_of_ne_nil hx, ih,
          checks_group_of_ne_nil fun hy => hx ((eq_nil_iff_of_regroups h).2 hy)]
    rw [checksOfAll_append, checksOfAll_append before, checksOfAll, checksOfAll, hgroup]

end Refinement

/-! ## Constraints -/

namespace Constraint

/-- The constraints that compile. -/
inductive WellFormed : Constraint → Prop where
  | plain (t : ValueType) : WellFormed (.plain t)
  | sequenceOf (t : ValueType) : WellFormed (.sequenceOf (.plain t))
  | refined {base : Constraint} {items : List Refinement} (hb : WellFormed base)
      (hne : items ≠ []) (hi : ∀ item ∈ items, item.WellFormed) : WellFormed (.refined base items)

theorem wellFormed_refined {base : Constraint} {items : List Refinement} :
    (refined base items).WellFormed ↔
      base.WellFormed ∧ items ≠ [] ∧ ∀ item ∈ items, item.WellFormed :=
  ⟨fun h => by cases h; exact ⟨‹_›, ‹_›, ‹_›⟩, fun h => .refined h.1 h.2.1 h.2.2⟩

theorem wellFormed_sequenceOf {element : Constraint} :
    (sequenceOf element).WellFormed ↔ ∃ t, element = plain t :=
  ⟨fun h => by cases h; exact ⟨_, rfl⟩, fun ⟨t, ht⟩ => ht ▸ .sequenceOf t⟩

theorem isOk_checks_sequenceOf_iff {element : Constraint} :
    (∃ cs, (sequenceOf element).checks = .ok cs) ↔ ∃ t, element = plain t := by
  refine ⟨?_, ?_⟩
  · rintro ⟨cs, h⟩
    obtain ⟨c, hc, -⟩ := checks_sequenceOf_eq_ok.1 h
    obtain ⟨t, ht, -⟩ := checks_eq_ok_singleton hc
    exact ⟨t, ht⟩
  · rintro ⟨t, rfl⟩
    exact ⟨_, rfl⟩

theorem isOk_checks_iff {a : Constraint} : (∃ cs, a.checks = .ok cs) ↔ a.WellFormed := by
  induction a with
  | plain t => exact ⟨fun _ => .plain t, fun _ => ⟨_, rfl⟩⟩
  | refined base items ih =>
    rw [wellFormed_refined, ← ih, ← Refinement.isOk_checksOfAll_iff]
    simp only [checks_refined_eq_ok]
    refine ⟨?_, ?_⟩
    · rintro ⟨_, hne, ds, es, hd, he, -⟩
      exact ⟨⟨ds, hd⟩, hne, es, he⟩
    · rintro ⟨⟨ds, hd⟩, hne, es, he⟩
      exact ⟨_, hne, ds, es, hd, he, rfl⟩
  | sequenceOf element _ => rw [isOk_checks_sequenceOf_iff, wellFormed_sequenceOf]
  | other text => exact ⟨fun ⟨_, h⟩ => (nomatch h), fun h => (nomatch h)⟩

theorem category_of_mem_extras {a : Constraint} (h : a.WellFormed) :
    ∀ c ∈ a.extras, c.category ≠ .type := by
  induction h with
  | plain t => simp [extras]
  | sequenceOf t => simp [extras]
  | refined _ _ hi ih =>
    obtain ⟨cs, hcs⟩ := Refinement.isOk_checksOfAll_iff.2 hi
    rw [extras, List.forall_mem_append, ← Refinement.checksOfAll_eq_leavesOfAll hcs]
    exact ⟨ih, fun c hc => Check.isValueCheck_iff.1
      (Refinement.isValueCheck_of_checksOfAll hcs c hc)⟩

/-! ## Arrangements of refinements -/

/-- Two constraints differ in the grouping of items and in how these are spread over refinements
that stand one upon the other, and in nothing else. -/
inductive Rearranges : Constraint → Constraint → Prop where
  | refl (a : Constraint) : Rearranges a a
  | symm {a b : Constraint} (h : Rearranges a b) : Rearranges b a
  | trans {a b c : Constraint} (h : Rearranges a b) (h' : Rearranges b c) : Rearranges a c
  | regroup (base : Constraint) {xs ys : List Refinement} (h : Refinement.Regroups xs ys) :
      Rearranges (.refined base xs) (.refined base ys)
  | merge (base : Constraint) {xs ys : List Refinement} (hx : xs ≠ []) (hy : ys ≠ []) :
      Rearranges (.refined (.refined base xs) ys) (.refined base (xs ++ ys))
  | inside {a b : Constraint} (h : Rearranges a b) (items : List Refinement) :
      Rearranges (.refined a items) (.refined b items)

theorem checks_refined_of_ne_nil {base : Constraint} {items : List Refinement} (h : items ≠ []) :
    (refined base items).checks = do
      let cs ← base.checks
      let ds ← Refinement.checksOfAll items
      return cs ++ ds := by
  rw [checks, if_neg (by simpa using h)]

theorem checks_eq_of_rearranges {a b : Constraint} (h : Rearranges a b) : a.checks = b.checks := by
  induction h with
  | refl a => rfl
  | symm _ ih => exact ih.symm
  | trans _ _ ih ih' => exact ih.trans ih'
  | regroup base h =>
    rw [checks, checks, Refinement.checksOfAll_eq_of_regroups h]
    simp only [List.isEmpty_iff, Refinement.eq_nil_iff_of_regroups h]
  | merge base hx hy =>
    rw [checks_refined_of_ne_nil hy, checks_refined_of_ne_nil hx,
      checks_refined_of_ne_nil (by simp [hx]), Refinement.checksOfAll_append]
    simp only [bind_assoc, pure_bind, List.append_assoc]
  | inside _ items ih => rw [checks, checks, ih]

/-! ## Compilation -/

theorem compile_eq_error_of_not_wellFormed {a : Constraint} (h : ¬ a.WellFormed)
    (param : ParamRef) :
    ∃ problem, a.compile param = .error (.constraintCompilation param a.text problem) := by
  rw [compile]
  cases hc : a.checks with
  | error problem => exact ⟨problem.message, rfl⟩
  | ok cs => exact absurd (isOk_checks_iff.1 ⟨cs, hc⟩) h

/-- A constraint compiles exactly if the grammar has it, so never a sequence of anything but a type.
Its checks are those of the shape and then the leaves of its refinements, none of them a type check;
and they are the same however items are grouped and refinements put together. -/
theorem compile_follows_grammar :
    (∀ (a : Constraint) (param : ParamRef),
      (∃ cs, a.compile param = .ok cs) ↔ a.WellFormed) ∧
    (∀ (element : Constraint) (param : ParamRef), (∀ t, element ≠ .plain t) →
      ∃ problem, (sequenceOf element).compile param =
        .error (.constraintCompilation param (sequenceOf element).text problem)) ∧
    (∀ (a : Constraint) (param : ParamRef) (cs : List Check), a.compile param = .ok cs →
      (∃ s, a.shape? = some s ∧ cs = s.checks ++ a.extras) ∧
        ∀ c ∈ a.extras, c.category ≠ .type) ∧
    (∀ a b : Constraint, Rearranges a b → a.checks = b.checks ∧
      ∀ (param : ParamRef) (cs : List Check),
        a.compile param = .ok cs ↔ b.compile param = .ok cs) := by
  simp only [compile_eq_ok]
  refine ⟨fun _ _ => isOk_checks_iff, fun element param h => ?_, fun a _ cs h => ?_,
    fun a b h => ?_⟩
  · refine compile_eq_error_of_not_wellFormed (fun hw => ?_) param
    obtain ⟨t, ht⟩ := wellFormed_sequenceOf.1 hw
    exact h t ht
  · exact ⟨checks_eq_append h, category_of_mem_extras (isOk_checks_iff.1 ⟨cs, h⟩)⟩
  · have hc := checks_eq_of_rearranges h
    exact ⟨hc, fun _ _ => by rw [hc]⟩

/-- Three checks in two refinements and two groups compile like the three in one row; a sequence of
refined integers does not compile. -/
theorem nested_groups_compile :
    let param : ParamRef := ⟨0, "xs"⟩
    let base : Constraint := .sequenceOf (.plain .int)
    let signs : Refinement := .check (.eachSatisfies .positive)
    let a : Constraint := .refined (.refined base [.kind .nonEmpty])
      [.group [.kind .monotonicIncreasing, .group [signs]]]
    let b : Constraint := .refined base [.kind .nonEmpty, .kind .monotonicIncreasing, signs]
    let element : Constraint := .refined (.plain .int) [.kind .positive]
    let cs : List Check := [.isSequenceShaped (.sequenceOf (.plain .int)),
      .eachSatisfies (.typeEquals .int), .nonEmpty, .monotonicIncreasing, .eachSatisfies .positive]
    a.WellFormed ∧ a.compile param = .ok cs ∧ b.compile param = .ok cs ∧
      (∃ s, a.shape? = some s ∧ cs = s.checks ++ a.extras) ∧
      ∃ problem, (sequenceOf element).compile param =
        .error (.constraintCompilation param (sequenceOf element).text problem) := by
  intro param base signs a b element cs
  obtain ⟨haccept, helement, hchecks, harrange⟩ := compile_follows_grammar
  have hab : Rearranges a b := by
    have hgroups : Refinement.Regroups
        [.kind .nonEmpty, .group [.kind .monotonicIncreasing, .group [signs]]]
        [.kind .nonEmpty, .kind .monotonicIncreasing, signs] := by
      have hinner : Refinement.Regroups [.kind .monotonicIncreasing, signs]
          [.kind .monotonicIncreasing, .group [signs]] :=
        .group [.kind .monotonicIncreasing] (List.cons_ne_nil signs []) []
      refine .symm (.trans ?_ (.inside [.kind .nonEmpty] hinner []))
      exact .group [.kind .nonEmpty]
        (List.cons_ne_nil (.kind .monotonicIncreasing) [signs]) []
    exact .trans (.merge base (List.cons_ne_nil _ _) (List.cons_ne_nil _ _))
      (.regroup base hgroups)
  have ha : a.compile param = .ok cs := rfl
  exact ⟨(haccept a param).1 ⟨cs, ha⟩, ha, ((harrange a b hab).2 param cs).1 ha,
    (hchecks a param cs ha).1, helement element param fun t ht => (nomatch ht)⟩

end Constraint
end CallContract
