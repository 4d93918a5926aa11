import CallContract.Check.Basic
import CallContract.Proofs.Texts.Quotes

/-!
# The texts of checks

The names of types, and so those of kinds of check, begin none of each other, and what a check is
built from stands in parentheses behind its kind's name. So the text of a check shows where it ends,
whatever stands behind it, at any depth of nesting; and there are no quotes in it.

**Results.**
* `DeclaredType.delimits_text`, `Check.delimits_text`: texts of types and checks, before anything.
* `Check.closed_text`: no quotes are left open by a check.
-/
namespace CallContract

open Text

namespace ValueType

theorem prefixFree_name : PrefixFree ("Sequence[".toList :: all.map (·.name.toList)) := by
  -- Literals are opened as lists of characters, which `decide` alone would decode at each comparison.
  simp only [all, List.map_cons, List.map_nil, name, -String.reduceToList]
  repeat rw [String.toList_ofList]
  decide

theorem name_injective {t t' : ValueType} (h : t.name = t'.name) : t = t' :=
  Option.some.inj (by rw [← ofName?_name, h, ofName?_name])

theorem name_mem (t : ValueType) :
    t.name.toList ∈ "Sequence[".toList :: all.map (·.name.toList) :=
  List.mem_cons_of_mem _ (List.mem_map_of_mem t.mem_all)

theorem delimits_name (t : ValueType) : Delimits name Eq anything t :=
  delimits_of_prefixFree prefixFree_name name_mem (fun _ _ => name_injective) t

theorem closed_name (t : ValueType) : Closed t.name.toList := by cases t <;> decide

end ValueType

namespace DeclaredType

/-- No sequence is written like a plain type. -/
theorem name_append_ne (t : ValueType) (s u : List Char) :
    t.name.toList ++ s ≠ "Sequence[".toList ++ u := by
  intro h
  have hname : t.name.toList = "Sequence[".toList :=
    (ValueType.prefixFree_name.eq_of_append_eq t.name_mem List.mem_cons_self h).1
  cases t <;> exact absurd hname (by decide)

theorem toList_text_sequenceOf (element : DeclaredType) :
    (text (.sequenceOf element)).toList =
      "Sequence[".toList ++ (element.text.toList ++ "]".toList) := by
  rw [text, String.toList_append, String.toList_append, List.append_assoc]

theorem delimits_text (d : DeclaredType) : Delimits text Eq anything d := by
  induction d with
  | plain t =>
    rintro (t' | element) s u hs hu h
    · obtain ⟨rfl, hsu⟩ := t.delimits_name hs hu h
      exact ⟨rfl, hsu⟩
    · rw [toList_text_sequenceOf, List.append_assoc] at h
      exact absurd h (name_append_ne t _ _)
  | sequenceOf element ih =>
    rintro (t' | element') s u hs hu h
    · rw [toList_text_sequenceOf, List.append_assoc] at h
      exact absurd h.symm (name_append_ne t' _ _)
    · obtain ⟨rfl, hsu⟩ := ih.between "Sequence[" "]" (fun _ _ => trivial) hs hu h
      exact ⟨rfl, hsu⟩

theorem closed_text (d : DeclaredType) : Closed d.text.toList := by
  induction d with
  | plain t => exact t.closed_name
  | sequenceOf element ih =>
    exact ih.between (by decide) (by decide)

end DeclaredType

namespace Check

namespace Kind

theorem prefixFree_name : PrefixFree (all.map (·.name.toList)) := by
  simp only [all, List.map_cons, List.map_nil, name, -String.reduceToList]
  repeat rw [String.toList_ofList]
  decide

theorem name_injective {k k' : Kind} (h : k.name = k'.name) : k = k' :=
  Option.some.inj (by rw [← ofName?_name, h, ofName?_name])

theorem delimits_name (k : Kind) : Delimits name Eq anything k :=
  delimits_of_prefixFree prefixFree_name (fun k => List.mem_map_of_mem k.mem_all)
    (fun _ _ => name_injective) k

theorem closed_name (k : Kind) : Closed k.name.toList := by cases k <;> decide

end Kind

/-- What stands behind the name of a check's kind. -/
def argumentText : Check → String
  | .typeEquals declared => "(type_declared=" ++ declared.name ++ ")"
  | .isSequenceShaped declared => "(type_declared=" ++ declared.text ++ ")"
  | .eachSatisfies inner => "(check_applied_to_each=" ++ inner.text ++ ")"
  | .nonEmpty | .monotonicIncreasing | .positive => "()"

theorem toList_text (c : Check) : c.text.toList = c.kind.name.toList ++ c.argumentText.toList := by
  rw [← String.toList_append]
  cases c <;> rfl

/-- The text of a check shows its kind. -/
theorem kind_eq_of_text_append {c c' : Check} {s t : List Char}
    (h : c.text.toList ++ s = c'.text.toList ++ t) :
    c.kind = c'.kind ∧ c.argumentText.toList ++ s = c'.argumentText.toList ++ t := by
  rw [toList_text, toList_text, List.append_assoc, List.append_assoc] at h
  exact c.kind.delimits_name trivial trivial h

theorem delimits_text (c : Check) : Delimits text Eq anything c := by
  have last (s : List Char) (_ : anything s) : anything (")".toList ++ s) := trivial
  induction c with
  | typeEquals declared =>
    intro c' s t hs ht h
    obtain ⟨hkind, hrest⟩ := kind_eq_of_text_append h
    cases c' <;> cases hkind
    obtain ⟨rfl, hst⟩ := (declared.delimits_name.between "(type_declared=" ")" last) hs ht hrest
    exact ⟨rfl, hst⟩
  | isSequenceShaped declared =>
    intro c' s t hs ht h
    obtain ⟨hkind, hrest⟩ := kind_eq_of_text_append h
    cases c' <;> cases hkind
    obtain ⟨rfl, hst⟩ := (declared.delimits_text.between "(type_declared=" ")" last) hs ht hrest
    exact ⟨rfl, hst⟩
  | eachSatisfies inner ih =>
    intro c' s t hs ht h
    obtain ⟨hkind, hrest⟩ := kind_eq_of_text_append h
    cases c' <;> cases hkind
    obtain ⟨rfl, hst⟩ := (ih.between "(check_applied_to_each=" ")" last) hs ht hrest
    exact ⟨rfl, hst⟩
  | nonEmpty | monotonicIncreasing | positive =>
    intro c' s t _ _ h
    obtain ⟨hkind, hrest⟩ := kind_eq_of_text_append h
    cases c' <;> cases hkind
    exact ⟨rfl, List.append_cancel_left hrest⟩

theorem closed_text (c : Check) : Closed c.text.toList := by
  induction c with
  | typeEquals declared =>
    exact toList_text _ ▸
      (Kind.closed_name _).append (declared.closed_name.between (by decide) (by decide))
  | isSequenceShaped declared =>
    exact toList_text _ ▸
      (Kind.closed_name _).append (declared.closed_text.between (by decide) (by decide))
  | eachSatisfies inner ih =>
    exact toList_text _ ▸ (Kind.closed_name _).append (ih.between (by decide) (by decide))
  | nonEmpty | monotonicIncreasing | positive => decide

end Check
end CallContract
