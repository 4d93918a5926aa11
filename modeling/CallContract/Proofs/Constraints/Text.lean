import CallContract.Constraint.Basic
import CallContract.Proofs.Checks.Text
import CallContract.Proofs.Texts.Delimited

/-!
# The texts of constraints

A constraint is told by its text. A type is a word of its own; a refinement and a sequence open with
a word and a bracket which no type begins with, and close the bracket at their end. Of the items of
a refinement, groups stand in brackets, and a check is told from a kind by the parenthesis behind
its name, since a kind is followed by what ends an item. So the text of an item shows where it ends
before a comma or a bracket, and that of a constraint before anything, at any depth of nesting.

**Other texts.** A constraint that is kept as it was written may be written like any other, so
constraints with such a part are left out (`OtherFree`).

**Results.**
* `Refinement.delimits_text`: texts of items, before the end of an item.
* `Constraint.eq_of_text_append`: texts of constraints, before anything.
* `Constraint.text_identifies`: constraints, items, checks and declared types, each by its text.
-/
namespace CallContract

open Text

/-! ## Items -/

namespace Check

theorem Kind.exists_name_eq_cons (k : Kind) :
    ∃ c cs, k.name.toList = c :: cs ∧ endsItem c = false ∧ c ≠ '[' := by
  cases k <;> exact ⟨_, _, String.toList_ofList, by decide, by decide⟩

theorem head?_argumentText (c : Check) : c.argumentText.toList.head? = some '(' := by
  cases c with
  | typeEquals declared =>
    change ("(type_declared=" ++ declared.name ++ ")").toList.head? = _
    simp
  | isSequenceShaped declared =>
    change ("(type_declared=" ++ declared.text ++ ")").toList.head? = _
    simp
  | eachSatisfies inner =>
    change ("(check_applied_to_each=" ++ inner.text ++ ")").toList.head? = _
    simp
  | nonEmpty | monotonicIncreasing | positive => rfl

/-- What ends an item does not go on with the arguments of a check. -/
theorem text_append_ne_name {c : Check} {k : Kind} {s t : List Char} (ht : EndsItem t) :
    c.text.toList ++ s ≠ k.name.toList ++ t := by
  intro h
  rw [toList_text, List.append_assoc] at h
  obtain ⟨-, ht'⟩ := c.kind.delimits_name trivial trivial h
  have hhead : t.head? = some '(' := by
    rw [← ht', List.head?_append, head?_argumentText, Option.some_or]
  have hend := ht '(' hhead
  exact absurd hend (by decide)

end Check

namespace Refinement

theorem texts_eq (items : List Refinement) : texts items = items.map text := by
  induction items with
  | nil => rfl
  | cons item items ih => rw [texts, ih, List.map_cons]

theorem toList_text_group (items : List Refinement) :
    (text (.group items)).toList = '[' :: ((listed (items.map text)).toList ++ [']']) := by
  rw [text, texts_eq]
  simp

def isGroup : Refinement → Bool
  | .group _ => true
  | .check _ | .kind _ => false

/-- Groups begin with a bracket, all other items with a letter. -/
theorem exists_text_eq_cons (item : Refinement) :
    ∃ c cs, item.text.toList = c :: cs ∧ endsItem c = false ∧ decide (c = '[') = item.isGroup := by
  cases item with
  | check c =>
    obtain ⟨first, cs, hname, hends, hne⟩ := c.kind.exists_name_eq_cons
    refine ⟨first, cs ++ c.argumentText.toList, ?_, hends, decide_eq_false hne⟩
    rw [text, Check.toList_text, hname, List.cons_append]
  | kind k =>
    obtain ⟨first, cs, hname, hends, hne⟩ := k.exists_name_eq_cons
    exact ⟨first, cs, hname, hends, decide_eq_false hne⟩
  | group items => exact ⟨_, _, toList_text_group items, rfl, rfl⟩

theorem beginsItem_text (item : Refinement) : BeginsItem item.text.toList := by
  obtain ⟨c, cs, htext, hends, -⟩ := exists_text_eq_cons item
  exact ⟨c, cs, htext, hends⟩

theorem isGroup_eq_of_text_append {item other : Refinement} {s t : List Char}
    (h : item.text.toList ++ s = other.text.toList ++ t) : item.isGroup = other.isGroup := by
  obtain ⟨c, cs, hitem, -, hc⟩ := exists_text_eq_cons item
  obtain ⟨d, ds, hother, -, hd⟩ := exists_text_eq_cons other
  rw [hitem, hother] at h
  rw [← hc, ← hd, (List.cons.inj h).1]

/-- Items in a row that a bracket closes. -/
theorem eq_of_listed_eq {items others : List Refinement}
    (hitems : ∀ item ∈ items, Delimits text Eq EndsItem item) {s t : List Char}
    (h : (listed (items.map text)).toList ++ ']' :: s =
      (listed (others.map text)).toList ++ ']' :: t) : items = others ∧ s = t := by
  obtain ⟨hall, hend⟩ := forall₂_of_listed_eq beginsItem_text hitems
    (endsList_cons (by decide) s) (endsList_cons (by decide) t) h
  rw [List.forall₂_eq_eq_eq] at hall
  exact ⟨hall, (List.cons.inj hend).2⟩

mutual

theorem delimits_text (item : Refinement) : Delimits text Eq EndsItem item := by
  intro other s t hs ht h
  have hgroup := isGroup_eq_of_text_append h
  cases item with
  | check c =>
    cases other with
    | check c' =>
      obtain ⟨rfl, hst⟩ := c.delimits_text trivial trivial h
      exact ⟨rfl, hst⟩
    | kind k => exact absurd h (Check.text_append_ne_name ht)
    | group items => cases hgroup
  | kind k =>
    cases other with
    | check c => exact absurd h.symm (Check.text_append_ne_name hs)
    | kind k' =>
      obtain ⟨rfl, hst⟩ := k.delimits_name trivial trivial h
      exact ⟨rfl, hst⟩
    | group items => cases hgroup
  | group items =>
    cases other with
    | check c => cases hgroup
    | kind k => cases hgroup
    | group others =>
      rw [toList_text_group, toList_text_group, List.cons_append, List.cons_append,
        List.append_assoc, List.append_assoc] at h
      obtain ⟨rfl, hst⟩ := eq_of_listed_eq (delimits_texts items) (List.cons.inj h).2
      exact ⟨rfl, hst⟩

theorem delimits_texts (items : List Refinement) :
    ∀ item ∈ items, Delimits text Eq EndsItem item := by
  cases items with
  | nil => exact fun item h => nomatch h
  | cons first items =>
    exact List.forall_mem_cons.2 ⟨delimits_text first, delimits_texts items⟩

end

end Refinement

/-! ## Constraints -/

/-- No type is written like what a refinement or a sequence opens with. -/
theorem ValueType.name_ne_opening (t : ValueType) : t.name ≠ "Refined[" ∧ t.name ≠ "Sequence[" := by
  cases t <;> decide

namespace Constraint

/-- No part of the constraint is kept as it was written. -/
inductive OtherFree : Constraint → Prop where
  | plain (t : ValueType) : OtherFree (.plain t)
  | refined {base : Constraint} (h : OtherFree base) (items : List Refinement) :
      OtherFree (.refined base items)
  | sequenceOf {element : Constraint} (h : OtherFree element) : OtherFree (.sequenceOf element)

/-- What a constraint opens with. -/
def opening : Constraint → String
  | .plain t => t.name
  | .refined .. => "Refined["
  | .sequenceOf _ => "Sequence["
  | .other text => text

/-- What stands behind the opening of a constraint. -/
def body : Constraint → String
  | .refined base items => listed (base.text :: items.map Refinement.text) ++ "]"
  | .sequenceOf element => element.text ++ "]"
  | .plain _ | .other _ => ""

def openings : List (List Char) :=
  "Refined[".toList :: "Sequence[".toList :: ValueType.all.map (·.name.toList)

theorem prefixFree_openings : PrefixFree openings := by
  simp only [openings, ValueType.all, List.map_cons, List.map_nil, ValueType.name,
    -String.reduceToList]
  repeat rw [String.toList_ofList]
  decide

theorem OtherFree.opening_mem {a : Constraint} (h : a.OtherFree) : a.opening.toList ∈ openings := by
  cases h with
  | plain t =>
    exact List.mem_cons_of_mem _ (List.mem_cons_of_mem _ (List.mem_map_of_mem t.mem_all))
  | refined => exact List.mem_cons_self
  | sequenceOf => exact List.mem_cons_of_mem _ List.mem_cons_self

theorem text_eq (a : Constraint) : a.text = a.opening ++ a.body := by
  cases a with
  | plain t => simp [text, opening, body]
  | refined base items => simp [text, opening, body, Refinement.texts_eq, String.append_assoc]
  | sequenceOf element => simp [text, opening, body, String.append_assoc]
  | other text => simp [Constraint.text, opening, body]

/-- What stands behind the base of a refinement shows its items and where it ends. -/
theorem eq_of_afterItem_eq {items others : List Refinement} {s t : List Char}
    (h : afterItem (items.map Refinement.text) (']' :: s) =
      afterItem (others.map Refinement.text) (']' :: t)) : items = others ∧ s = t := by
  cases items with
  | nil =>
    cases others with
    | nil => exact ⟨rfl, (List.cons.inj h).2⟩
    | cons other others => exact absurd (List.cons.inj h).1 (by decide)
  | cons item items =>
    cases others with
    | nil => exact absurd (List.cons.inj h).1 (by decide)
    | cons other others =>
      -- A comma and a space stand before the items.
      exact Refinement.eq_of_listed_eq (Refinement.delimits_texts _)
        (List.cons.inj (List.cons.inj h).2).2

theorem opening_eq_of_text_append {a b : Constraint} (ha : a.OtherFree) (hb : b.OtherFree)
    {s t : List Char} (h : a.text.toList ++ s = b.text.toList ++ t) :
    a.opening = b.opening ∧ a.body.toList ++ s = b.body.toList ++ t := by
  rw [text_eq, text_eq, String.toList_append, String.toList_append, List.append_assoc,
    List.append_assoc] at h
  obtain ⟨hopening, hbody⟩ :=
    prefixFree_openings.eq_of_append_eq ha.opening_mem hb.opening_mem h
  exact ⟨String.toList_inj.1 hopening, hbody⟩

theorem toList_body_refined_append (base : Constraint) (items : List Refinement) (s : List Char) :
    (body (.refined base items)).toList ++ s =
      base.text.toList ++ afterItem (items.map Refinement.text) (']' :: s) := by
  rw [body, String.toList_append, List.append_assoc, listed_cons_append]
  simp

/-- The text of a constraint shows what it is and where it ends, whatever stands behind it. -/
theorem eq_of_text_append {a b : Constraint} (ha : a.OtherFree) (hb : b.OtherFree)
    {s t : List Char} (h : a.text.toList ++ s = b.text.toList ++ t) : a = b ∧ s = t := by
  -- By the first constraint; openings leave of the second only the case of the same constructor.
  induction ha generalizing b s t with
  | plain type =>
    obtain ⟨hopening, hbody⟩ := opening_eq_of_text_append (.plain type) hb h
    cases hb with
    | plain type' =>
      obtain rfl := ValueType.name_injective hopening
      exact ⟨rfl, List.append_cancel_left hbody⟩
    | refined => exact absurd hopening type.name_ne_opening.1
    | sequenceOf => exact absurd hopening type.name_ne_opening.2
  | refined hbase items ih =>
    obtain ⟨hopening, hbody⟩ := opening_eq_of_text_append (.refined hbase items) hb h
    cases hb with
    | plain type => exact absurd hopening.symm type.name_ne_opening.1
    | refined hbase' others =>
      rw [toList_body_refined_append, toList_body_refined_append] at hbody
      obtain ⟨rfl, hafter⟩ := ih hbase' hbody
      obtain ⟨rfl, hst⟩ := eq_of_afterItem_eq hafter
      exact ⟨rfl, hst⟩
    | sequenceOf => exact absurd hopening (by decide : "Refined[" ≠ "Sequence[")
  | sequenceOf helement ih =>
    obtain ⟨hopening, hbody⟩ := opening_eq_of_text_append (.sequenceOf helement) hb h
    cases hb with
    | plain type => exact absurd hopening.symm type.name_ne_opening.2
    | refined => exact absurd hopening (by decide : "Sequence[" ≠ "Refined[")
    | sequenceOf helement' =>
      rw [body, body, String.toList_append, String.toList_append, List.append_assoc,
        List.append_assoc] at hbody
      obtain ⟨rfl, hend⟩ := ih helement' hbody
      exact ⟨rfl, List.append_cancel_left hend⟩

theorem text_injective {a b : Constraint} (ha : a.OtherFree) (hb : b.OtherFree)
    (h : a.text = b.text) : a = b :=
  (eq_of_text_append ha hb (congrArg (·.toList ++ []) h)).1

/-- Constraints without a part kept as it was written, items of refinements, checks and declared
types are each told by their texts, and no check is written like a kind. -/
theorem text_identifies :
    (∀ a b : Constraint, a.OtherFree → b.OtherFree → (a.text = b.text ↔ a = b)) ∧
    (∀ item other : Refinement, item.text = other.text ↔ item = other) ∧
    (∀ c d : Check, c.text = d.text ↔ c = d) ∧
    (∀ (c : Check) (k : Check.Kind), c.text ≠ k.name) ∧
    ∀ d e : DeclaredType, d.text = e.text ↔ d = e := by
  refine ⟨?_, ?_, ?_, ?_, ?_⟩
  · intro a b ha hb
    exact ⟨text_injective ha hb, congrArg text⟩
  · intro item other
    exact ⟨item.delimits_text.eq_of_text_eq endsItem_nil, congrArg Refinement.text⟩
  · intro c d
    exact ⟨c.delimits_text.eq_of_text_eq trivial, congrArg Check.text⟩
  · intro c k h
    exact Check.text_append_ne_name endsItem_nil (congrArg (·.toList ++ []) h)
  · intro d e
    exact ⟨d.delimits_text.eq_of_text_eq trivial, congrArg DeclaredType.text⟩

/-- A kind in a group of its own, a kind beside an empty group and a check are three things. -/
theorem grouped_kinds_told_apart :
    let ints := refined (.sequenceOf (.plain .int))
    (∀ items, (ints items).OtherFree) ∧
      (ints [.group [.kind .nonEmpty]]).text ≠ (ints [.kind .nonEmpty, .group []]).text ∧
      (ints [.group [.kind .nonEmpty]]).text ≠ (ints [.group [.check .nonEmpty]]).text := by
  intro ints
  have hfree (items : List Refinement) : (ints items).OtherFree :=
    .refined (.sequenceOf (.plain .int)) items
  refine ⟨hfree, fun h => ?_, fun h => ?_⟩
  · exact nomatch (text_identifies.1 _ _ (hfree _) (hfree _)).1 h
  · exact nomatch (text_identifies.1 _ _ (hfree _) (hfree _)).1 h

end Constraint
end CallContract
