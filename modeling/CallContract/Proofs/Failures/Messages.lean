import CallContract.Proofs.Texts.Delimited
import CallContract.Failure.Printer

/-!
# Messages about signatures and bindings

Each message begins in a way of its own, which no other begins with (`opening`), names or kinds
follow, and the last of them is followed by what always closes a message of that sort. The names are
not escaped, yet each message has one name at most and so tells it.

**Results.**
* `Rejection.message_injective`: a rejected call, from its message.
* `Signature.Defect.message_injective`: a malformed signature, from its message.
-/
namespace CallContract

open Text

namespace ParamKind

theorem prefixFree_description : PrefixFree (all.map (·.description.toList)) := by
  -- Literals are opened as lists of characters, which `decide` alone would decode at each comparison.
  simp only [all, List.map_cons, List.map_nil, description, -String.reduceToList]
  repeat rw [String.toList_ofList]
  decide

/-- No description ends another, either. -/
theorem prefixFree_reverse_description :
    PrefixFree (all.map (·.description.toList.reverse)) := by
  simp only [all, List.map_cons, List.map_nil, description, -String.reduceToList]
  repeat rw [String.toList_ofList]
  decide

theorem description_injective {k k' : ParamKind} (h : k.description = k'.description) : k = k' := by
  cases k <;> cases k' <;> first | rfl | exact absurd h (by decide)

theorem delimits_description (k : ParamKind) : Delimits description Eq anything k :=
  delimits_of_prefixFree prefixFree_description
    (fun k => List.mem_map_of_mem (f := (·.description.toList)) (mem_all k))
    (fun _ _ => description_injective) k

/-- A description at the end of a text shows where it begins. -/
theorem eq_of_append_description_eq {k k' : ParamKind} {s t : List Char}
    (h : s ++ k.description.toList = t ++ k'.description.toList) : s = t ∧ k = k' := by
  have hrev := congrArg List.reverse h
  rw [List.reverse_append, List.reverse_append] at hrev
  obtain ⟨hk, hst⟩ := prefixFree_reverse_description.eq_of_append_eq
    (List.mem_map_of_mem (mem_all k)) (List.mem_map_of_mem (mem_all k')) hrev
  exact ⟨List.reverse_injective hst,
    description_injective (String.toList_inj.1 (List.reverse_injective hk))⟩

end ParamKind

namespace Rejection

/-- What a message begins with, up to the name in it. -/
def opening : Rejection → String
  | .missingArgument _ => "missing a required argument: '"
  | .missingKeywordOnlyArgument _ => "missing a required keyword-only argument: '"
  | .tooManyPositional => "too many positional arguments"
  | .multipleValues _ => "multiple values for argument '"
  | .unexpectedKeyword _ => "got an unexpected keyword argument '"
  | .positionalOnlyAsKeyword _ => "'"
  | .duplicateKeyword _ => "multiple values for keyword argument '"

/-- The name, and what closes the message. -/
def rest : Rejection → String
  | .tooManyPositional => ""
  | .positionalOnlyAsKeyword name =>
    name ++ "' parameter is positional only, but was passed as a keyword"
  | .missingArgument name | .missingKeywordOnlyArgument name | .multipleValues name
  | .unexpectedKeyword name | .duplicateKeyword name => name ++ "'"

/-- A rejection of each sort. -/
def sorts : List Rejection :=
  [.missingArgument "", .missingKeywordOnlyArgument "", .tooManyPositional, .multipleValues "",
    .unexpectedKeyword "", .positionalOnlyAsKeyword "", .duplicateKeyword ""]

theorem prefixFree_opening : PrefixFree (sorts.map (·.opening.toList)) := by
  simp only [sorts, List.map_cons, List.map_nil, opening, -String.reduceToList]
  repeat rw [String.toList_ofList]
  decide

theorem opening_mem (r : Rejection) : r.opening.toList ∈ sorts.map (·.opening.toList) := by
  cases r <;> simp only [sorts, opening, List.map_cons, List.mem_cons, true_or, or_true]

theorem message_eq (r : Rejection) : r.message = r.opening ++ r.rest := by
  unfold message opening rest
  cases r <;> simp only [String.append_assoc, String.append_empty]

theorem message_injective {r r' : Rejection} (h : r.message = r'.message) : r = r' := by
  rw [message_eq, message_eq, ← String.toList_inj, String.toList_append,
    String.toList_append] at h
  obtain ⟨ho, hr⟩ := prefixFree_opening.eq_of_append_eq r.opening_mem r'.opening_mem h
  rw [String.toList_inj] at ho hr
  cases r <;> cases r' <;> simp [opening] at ho <;> simp_all [rest]

end Rejection

namespace Signature.Defect

/-- What a message begins with, up to the first name or kind in it; or a kind. -/
def opening : Defect → String
  | .emptyName _ => "parameter name must not be empty (position "
  | .duplicateName _ => "duplicate parameter name: '"
  | .wrongOrder .. => "wrong parameter order: "
  | .duplicateVariadic .. => "more than one "
  | .variadicDefault _ kind => kind.description
  | .requiredAfterDefault _ => "parameter without a default follows parameter with a default: '"

/-- The names and kinds behind the opening, and what closes the message. -/
def rest : Defect → String
  | .emptyName index => toString index ++ ")"
  | .duplicateName name | .requiredAfterDefault name => name ++ "'"
  | .wrongOrder name kind previous =>
    kind.description ++ (" parameter '" ++ name ++ "' follows " ++ previous.description ++
      " parameter")
  | .duplicateVariadic name kind => kind.description ++ (" parameter: '" ++ name ++ "'")
  | .variadicDefault name _ => " parameter '" ++ name ++ "' cannot have a default value"

/-- A defect of each sort. -/
def sorts : List Defect :=
  [.emptyName 0, .duplicateName "", .wrongOrder "" .keywordOnly .keywordOnly,
    .duplicateVariadic "" .varPositional, .requiredAfterDefault ""] ++
    ParamKind.all.map (.variadicDefault "")

theorem prefixFree_opening : PrefixFree (sorts.map (·.opening.toList)) := by
  simp only [sorts, ParamKind.all, List.map_cons, List.map_nil, List.cons_append, List.nil_append,
    opening, ParamKind.description, -String.reduceToList]
  repeat rw [String.toList_ofList]
  decide

theorem opening_mem (d : Defect) : d.opening.toList ∈ sorts.map (·.opening.toList) := by
  cases d with
  | variadicDefault name kind =>
    refine List.mem_map.2 ⟨.variadicDefault "" kind, List.mem_append_right _ ?_, rfl⟩
    exact List.mem_map_of_mem kind.mem_all
  | _ =>
    simp only [sorts, opening, List.cons_append, List.map_cons, List.mem_cons, true_or, or_true]

theorem message_eq (d : Defect) : d.message = d.opening ++ d.rest := by
  unfold message opening rest
  cases d <;> simp only [String.append_assoc]

/-- The sort that an opening shows. -/
def nameOf? (opening : String) : Option String := (sorts.find? (·.opening == opening)).map name

theorem nameOf?_opening (d : Defect) : nameOf? d.opening = some d.name := by
  cases d with
  | variadicDefault name kind => cases kind <;> rfl
  | _ => rfl

theorem eq_of_rest_eq {d d' : Defect} (ho : d.opening = d'.opening) (hr : d.rest = d'.rest) :
    d = d' := by
  have hn : d.name = d'.name := Option.some.inj (by rw [← nameOf?_opening, ho, nameOf?_opening])
  cases d <;> cases d' <;> simp [name] at hn
  case emptyName.emptyName i j =>
    have hij : toString i = toString j := (String.append_left_inj _).1 hr
    exact congrArg _ (toString_nat_injective hij)
  case duplicateName.duplicateName => simpa [rest] using hr
  case requiredAfterDefault.requiredAfterDefault => simpa [rest] using hr
  case wrongOrder.wrongOrder n k p n' k' p' =>
    rw [← String.toList_inj] at hr
    simp only [rest, String.toList_append, List.append_assoc] at hr
    obtain ⟨rfl, hrest⟩ := k.delimits_description trivial trivial hr
    have hends := List.append_cancel_left hrest
    simp only [← List.append_assoc] at hends
    obtain ⟨hname, rfl⟩ := ParamKind.eq_of_append_description_eq (List.append_cancel_right hends)
    rw [String.toList_inj.1 (List.append_cancel_right hname)]
  case duplicateVariadic.duplicateVariadic n k n' k' =>
    rw [← String.toList_inj] at hr
    simp only [rest, String.toList_append] at hr
    obtain ⟨rfl, hrest⟩ := k.delimits_description trivial trivial hr
    rw [List.append_assoc, List.append_assoc] at hrest
    rw [String.toList_inj.1 (List.append_cancel_right (List.append_cancel_left hrest))]
  case variadicDefault.variadicDefault n k n' k' =>
    obtain rfl : k = k' := ParamKind.description_injective ho
    simpa [rest] using hr

theorem message_injective {d d' : Defect} (h : d.message = d'.message) : d = d' := by
  rw [message_eq, message_eq, ← String.toList_inj, String.toList_append,
    String.toList_append] at h
  obtain ⟨ho, hr⟩ := prefixFree_opening.eq_of_append_eq d.opening_mem d'.opening_mem h
  rw [String.toList_inj] at ho hr
  exact eq_of_rest_eq ho hr

end Signature.Defect
end CallContract
