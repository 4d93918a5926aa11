import CallContract.Proofs.Numbers.ReadBack
import CallContract.Proofs.Texts.Quotes
import CallContract.Proofs.Values.DistinctKeys
import CallContract.Value.Printer

/-!
# The text of a value shows where it ends

Numbers, truth values and `none` are runs of letters, digits, points and minus signs, which nothing
continues that may stand behind an item; all other values begin with a character of their own and
end with the counterpart of it. Which of these a value is shows in the first character of its text,
and where it is a run, its type in the whole of it (`typeOfRun`).

**Results.**
* `delimits_text`: a value's text, before the end of an item.
* `closed_text`: it has no single quote outside of the texts in it.
* `text_eq_of_identical`: it tells no bits of a NaN.
* `text_append_eq_iff`: it tells all else, and where it ends.
-/
namespace CallContract

open Text

namespace Value

/-! ## Identity -/

/-- The same constructor around the same items in the same order, up to the bits of NaNs. -/
inductive Identical : Value → Value → Prop where
  | none : Identical .none .none
  | bool (b : Bool) : Identical (.bool b) (.bool b)
  | int (n : Int64) : Identical (.int n) (.int n)
  | float {x y : Binary64} (h : x.Identical y) : Identical (.float x) (.float y)
  | str (s : String) : Identical (.str s) (.str s)
  | list {items others : List Value} (h : List.Forall₂ Identical items others) :
      Identical (.list items) (.list others)
  | tuple {items others : List Value} (h : List.Forall₂ Identical items others) :
      Identical (.tuple items) (.tuple others)
  | dict {entries others : List (Value × Value)}
      (hk : List.Forall₂ Identical (entries.map (·.1)) (others.map (·.1)))
      (hv : List.Forall₂ Identical (entries.map (·.2)) (others.map (·.2))) :
      Identical (.dict entries) (.dict others)

/-! ## Texts of items and entries -/

theorem itemTexts_eq (items : List Value) : itemTexts items = items.map text := by
  induction items with
  | nil => rfl
  | cons v items ih => rw [itemTexts, ih, List.map_cons]

/-- A key and its value as they stand in a dict. -/
def entryText (entry : Value × Value) : String := text entry.1 ++ ": " ++ text entry.2

theorem entryTexts_eq (entries : List (Value × Value)) :
    entryTexts entries = entries.map entryText := by
  induction entries with
  | nil => rfl
  | cons e entries ih => rw [entryTexts, ih, List.map_cons, entryText]

/-- What closes a tuple of so many items. -/
def tupleEnd (length : Nat) : List Char := if length = 1 then [',', ')'] else [')']

theorem toList_text_list (items : List Value) :
    (text (.list items)).toList = '[' :: ((listed (items.map text)).toList ++ [']']) := by
  rw [text, itemTexts_eq]
  simp

theorem toList_text_tuple (items : List Value) :
    (text (.tuple items)).toList =
      '(' :: ((listed (items.map text)).toList ++ tupleEnd items.length) := by
  rw [text, itemTexts_eq, tupleEnd]
  split <;> simp

theorem toList_text_dict (entries : List (Value × Value)) :
    (text (.dict entries)).toList =
      '\x7b' :: ((listed (entries.map entryText)).toList ++ ['\x7d']) := by
  rw [text, entryTexts_eq]
  simp

/-! ## Runs -/

/-- The characters of numbers, truth values and `none`. -/
def isRunChar (c : Char) : Bool := c.isAlphanum || c == '.' || c == '-'

/-- The type that a run of letters, digits, points and minus signs has. -/
def typeOfRun (run : List Char) : ValueType :=
  if run = ['N', 'o', 'n', 'e'] then .none
  else if run = ['t', 'r', 'u', 'e'] ∨ run = ['f', 'a', 'l', 's', 'e'] then .bool
  else if run.all (fun c => c.isDigit || c == '-') then .int
  else .float

/-- The character that a value begins with, for those that are no runs. -/
def opening? : Value → Option Char
  | .str _ => some '"'
  | .list _ => some '['
  | .tuple _ => some '('
  | .dict _ => some '\x7b'
  | _ => Option.none

theorem isRunChar_of_isMark {c : Char} (h : Decimal.Layout.isMark c = true) :
    isRunChar c = true := by
  rw [Decimal.Layout.isMark, Bool.or_eq_true] at h
  rcases h with h | h
  · simp [isRunChar, Char.isAlphanum, h]
  · have hall : ['.', 'e', '-', 'i', 'n', 'f', 'N', 'a'].all isRunChar = true := by decide
    exact List.all_eq_true.1 hall c (of_decide_eq_true h)

theorem not_endsItem_of_isRunChar {c : Char} (h : isRunChar c = true) : endsItem c = false := by
  rw [endsItem, decide_eq_false_iff_not]
  intro hc
  have hnone : [',', ')', ']', '\x7d', ':'].any isRunChar = false := by decide
  exact List.any_eq_false.1 hnone c hc h

theorem isRunChar_of_mem {v : Value} (hv : v.opening? = Option.none) {c : Char}
    (h : c ∈ v.text.toList) : isRunChar c = true := by
  cases v with
  | none => exact List.all_eq_true.1 (by decide : "None".toList.all isRunChar = true) c h
  | bool b =>
    cases b
    · exact List.all_eq_true.1 (by decide : "false".toList.all isRunChar = true) c h
    · exact List.all_eq_true.1 (by decide : "true".toList.all isRunChar = true) c h
  | int n =>
    rcases isDigit_or_minus_of_mem_int h with hd | rfl
    · simp [isRunChar, Char.isAlphanum, hd]
    · rfl
  | float x => exact isRunChar_of_isMark (Decimal.Layout.isMark_of_mem_text h)
  | str s | list items | tuple items | dict entries => cases hv

theorem typeOfRun_of_not_word {run : List Char} (ho : 'o' ∉ run) (ht : 'r' ∉ run) (hl : 'l' ∉ run) :
    typeOfRun run = if run.all (fun c => c.isDigit || c == '-') then .int else .float := by
  rw [typeOfRun, if_neg (by rintro rfl; simp at ho), if_neg]
  rintro (rfl | rfl)
  · simp at ht
  · simp at hl

theorem typeOfRun_text {v : Value} (hv : v.opening? = Option.none) :
    typeOfRun v.text.toList = v.type := by
  cases v with
  | none => rfl
  | bool b => cases b <;> rfl
  | int n =>
    have hplain : ∀ c ∈ (text (.int n)).toList, (c.isDigit || c == '-') = true := fun c hc =>
      (isDigit_or_minus_of_mem_int hc).elim (fun hd => by rw [hd, Bool.true_or])
        fun hm => by rw [hm]; rfl
    have hnot {c : Char} (hc : (c.isDigit || c == '-') = false) : c ∉ (text (.int n)).toList :=
      fun hm => Bool.false_ne_true (hc.symm.trans (hplain c hm))
    rw [typeOfRun_of_not_word (hnot (by decide)) (hnot (by decide)) (hnot (by decide)),
      if_pos (List.all_eq_true.2 hplain), type]
  | float x =>
    have hnot {c : Char} (hc : Decimal.Layout.isMark c = false) : c ∉ (text (.float x)).toList :=
      fun hm => Bool.false_ne_true (hc.symm.trans (Decimal.Layout.isMark_of_mem_text hm))
    obtain ⟨c, hc, hd, hm⟩ := Decimal.Layout.exists_mem_text floatLayout x
    rw [typeOfRun_of_not_word (hnot (by decide)) (hnot (by decide)) (hnot (by decide)), if_neg,
      type]
    intro hall
    simpa [hd, hm] using List.all_eq_true.1 hall c hc
  | str s | list items | tuple items | dict entries => cases hv

theorem identical_of_run {v w : Value} (hv : v.opening? = Option.none)
    (hw : w.opening? = Option.none) (h : v.text.toList = w.text.toList) : Identical v w := by
  have htype : v.type = w.type := by rw [← typeOfRun_text hv, h, typeOfRun_text hw]
  have htext : v.text = w.text := String.toList_inj.1 h
  cases v with
  | none =>
    cases w <;> cases hw <;> cases htype
    exact .none
  | bool b =>
    cases w <;> cases hw <;> cases htype
    rename_i c
    cases b <;> cases c <;> first | exact .bool _ | exact absurd htext (by decide)
  | int m =>
    cases w <;> cases hw <;> cases htype
    rename_i n
    have hint : m.toInt = n.toInt := by
      rw [← readInt_toString m.toInt, ← readInt_toString n.toInt]
      exact congrArg readInt h
    exact Int64.toInt_inj.1 hint ▸ .int m
  | float x =>
    cases w <;> cases hw <;> cases htype
    exact .float (Decimal.Layout.text_eq_iff.1 htext)
  | str s | list items | tuple items | dict entries => cases hv

/-! ## What a text begins with -/

theorem text_ne_nil_of_run {v : Value} (hv : v.opening? = Option.none) : v.text.toList ≠ [] := by
  cases v with
  | none => decide
  | bool b => cases b <;> decide
  | int n => exact toString_int_ne_nil _
  | float x =>
    obtain ⟨c, hc, -⟩ := Decimal.Layout.exists_mem_text floatLayout x
    exact List.ne_nil_of_mem hc
  | str s | list items | tuple items | dict entries => cases hv

/-- The opening that a first character shows. -/
def openingOf? (c : Char) : Option Char := if isRunChar c then Option.none else some c

theorem exists_text_eq_cons (v : Value) :
    ∃ c cs, v.text.toList = c :: cs ∧ openingOf? c = v.opening? ∧ endsItem c = false := by
  cases hv : v.opening? with
  | none =>
    obtain ⟨c, cs, hc⟩ := List.exists_cons_of_ne_nil (text_ne_nil_of_run hv)
    have hrun := isRunChar_of_mem hv (hc ▸ List.mem_cons_self)
    refine ⟨c, cs, hc, if_pos hrun, ?_⟩
    exact not_endsItem_of_isRunChar hrun
  | some c =>
    cases v <;> cases hv
    · exact ⟨_, _, toList_quoted _, rfl, rfl⟩
    · exact ⟨_, _, toList_text_list _, rfl, rfl⟩
    · exact ⟨_, _, toList_text_tuple _, rfl, rfl⟩
    · exact ⟨_, _, toList_text_dict _, rfl, rfl⟩

theorem beginsItem_text (v : Value) : BeginsItem v.text.toList := by
  obtain ⟨c, cs, hc, -, he⟩ := exists_text_eq_cons v
  exact ⟨c, cs, hc, he⟩

theorem opening?_eq {v w : Value} {s t : List Char} (h : v.text.toList ++ s = w.text.toList ++ t) :
    v.opening? = w.opening? := by
  obtain ⟨c, cs, hv, hcv, -⟩ := exists_text_eq_cons v
  obtain ⟨d, ds, hw, hdw, -⟩ := exists_text_eq_cons w
  rw [hv, hw] at h
  rw [← hcv, ← hdw, (List.cons.inj h).1]

/-! ## Where a text ends -/

theorem stopsAt_of_endsItem {s : List Char} (h : EndsItem s) :
    StopsAt (isRunChar · = true) s := fun c hc hrun =>
  Bool.false_ne_true ((not_endsItem_of_isRunChar hrun).symm.trans (h c hc))

theorem endsList_tupleEnd (length : Nat) (s : List Char) : EndsList (tupleEnd length ++ s) := by
  unfold tupleEnd
  split
  · exact ⟨by simp [EndsItem, endsItem], by simp, by simp⟩
  · exact endsList_cons (by decide) s

theorem delimits_entryText {e : Value × Value} (hk : Delimits text Identical EndsItem e.1)
    (hv : Delimits text Identical EndsItem e.2) :
    Delimits entryText (fun e o => Identical e.1 o.1 ∧ Identical e.2 o.2) EndsItem e := by
  intro o s t hs ht h
  simp only [entryText, String.toList_append, List.append_assoc] at h
  have colon (u : List Char) : EndsItem (": ".toList ++ u) := by simp [EndsItem, endsItem]
  obtain ⟨hkey, hrest⟩ := hk (colon _) (colon _) h
  obtain ⟨hvalue, hst⟩ := hv hs ht (List.append_cancel_left hrest)
  exact ⟨⟨hkey, hvalue⟩, hst⟩

theorem beginsItem_entryText (e : Value × Value) : BeginsItem (entryText e).toList := by
  obtain ⟨c, cs, hc, he⟩ := beginsItem_text e.1
  exact ⟨c, cs ++ (": ".toList ++ (text e.2).toList), by simp [entryText, hc], he⟩

theorem delimits_text (v : Value) : Delimits text Identical EndsItem v := by
  induction v using inductionOnParts with
  | h v ih =>
    intro w s t hs ht h
    have hopen := opening?_eq h
    have run (hv : v.opening? = Option.none) : Identical v w ∧ s = t := by
      have hw := hopen.symm.trans hv
      obtain ⟨hrun, hst⟩ := run_eq_of_append_eq (fun _ => isRunChar_of_mem hv)
        (fun _ => isRunChar_of_mem hw) (stopsAt_of_endsItem hs) (stopsAt_of_endsItem ht) h
      exact ⟨identical_of_run hv hw hrun, hst⟩
    cases v with
    | str a =>
      cases w <;> cases hopen
      obtain ⟨rfl, hst⟩ := delimits_quoted a trivial trivial h
      exact ⟨.str a, hst⟩
    | list items =>
      cases w <;> cases hopen
      rename_i others
      rw [toList_text_list, toList_text_list, List.cons_append, List.cons_append,
        List.append_assoc, List.append_assoc] at h
      obtain ⟨hall, hend⟩ := forall₂_of_listed_eq beginsItem_text ih
        (endsList_cons (by decide) _) (endsList_cons (by decide) _) (List.cons.inj h).2
      exact ⟨.list hall, (List.cons.inj hend).2⟩
    | tuple items =>
      cases w <;> cases hopen
      rename_i others
      rw [toList_text_tuple, toList_text_tuple, List.cons_append, List.cons_append,
        List.append_assoc, List.append_assoc] at h
      obtain ⟨hall, hend⟩ := forall₂_of_listed_eq beginsItem_text ih
        (endsList_tupleEnd _ _) (endsList_tupleEnd _ _) (List.cons.inj h).2
      have hlength : items.length = others.length := hall.length_eq
      rw [hlength] at hend
      exact ⟨.tuple hall, List.append_cancel_left hend⟩
    | dict entries =>
      cases w <;> cases hopen
      rename_i others
      rw [toList_text_dict, toList_text_dict, List.cons_append, List.cons_append,
        List.append_assoc, List.append_assoc] at h
      obtain ⟨hall, hend⟩ := forall₂_of_listed_eq beginsItem_entryText
        (fun e he => delimits_entryText (ih _ (key_mem_parts he)) (ih _ (value_mem_parts he)))
        (endsList_cons (by decide) _) (endsList_cons (by decide) _) (List.cons.inj h).2
      have hkeys := hall.imp fun _ _ he => he.1
      have hvalues := hall.imp fun _ _ he => he.2
      refine ⟨.dict ?_ ?_, (List.cons.inj hend).2⟩
      · exact List.forall₂_map_left_iff.2 (List.forall₂_map_right_iff.2 hkeys)
      · exact List.forall₂_map_left_iff.2 (List.forall₂_map_right_iff.2 hvalues)
    | none => exact run rfl
    | bool b => exact run rfl
    | int n => exact run rfl
    | float x => exact run rfl

/-! ## Single quotes, and NaNs -/

theorem isPlain_of_isRunChar {c : Char} (h : isRunChar c = true) : IsPlain c := by
  refine ⟨?_, ?_, ?_⟩ <;> rintro rfl <;> exact absurd h (by decide)

theorem closed_text (v : Value) : Closed v.text.toList := by
  induction v using inductionOnParts with
  | h v ih =>
    have run (hv : v.opening? = Option.none) : Closed v.text.toList :=
      closed_of_isPlain fun c hc => isPlain_of_isRunChar (isRunChar_of_mem hv hc)
    have items {α : Type} {text : α → String} {xs : List α}
        (h : ∀ x ∈ xs, Closed (text x).toList) : Closed (listed (xs.map text)).toList :=
      closed_listed (List.forall_mem_map.2 h)
    have bracketed {first : Char} {inner close : List Char} (hf : Closed [first])
        (hi : Closed inner) (hc : Closed close) : Closed (first :: (inner ++ close)) :=
      hf.append (hi.append hc)
    cases v with
    | none => exact run rfl
    | bool b => exact run rfl
    | int n => exact run rfl
    | float x => exact run rfl
    | str a => exact closed_quoted a
    | list xs =>
      rw [toList_text_list]
      exact bracketed (by decide) (items ih) (by decide)
    | tuple xs =>
      rw [toList_text_tuple]
      exact bracketed (by decide) (items ih) (by unfold tupleEnd; split <;> decide)
    | dict entries =>
      rw [toList_text_dict]
      refine bracketed (by decide) (items fun e he => ?_) (by decide)
      simp only [entryText, String.toList_append]
      exact ((ih _ (key_mem_parts he)).append (by decide)).append (ih _ (value_mem_parts he))

theorem map_text_eq {xs ys : List Value} (hx : ∀ x ∈ xs, ∀ y, Identical x y → x.text = y.text)
    (h : List.Forall₂ Identical xs ys) : xs.map text = ys.map text := by
  induction h with
  | nil => rfl
  | cons hxy _ ih =>
    rw [List.map_cons, List.map_cons, hx _ List.mem_cons_self _ hxy,
      ih fun x hm => hx x (List.mem_cons_of_mem _ hm)]

theorem map_entryText_eq (entries : List (Value × Value)) :
    entries.map entryText =
      List.zipWith (fun key value => key ++ ": " ++ value) ((entries.map (·.1)).map text)
        ((entries.map (·.2)).map text) := by
  induction entries with
  | nil => rfl
  | cons e entries ih => simp [entryText, ih]

theorem text_eq_of_identical {v w : Value} (h : Identical v w) : v.text = w.text := by
  induction v using inductionOnParts generalizing w with
  | h v ih =>
    have items {xs ys : List Value} (h : List.Forall₂ Identical xs ys)
        (hx : ∀ x ∈ xs, x ∈ v.parts) : xs.map text = ys.map text :=
      map_text_eq (fun x hm _ => ih x (hx x hm)) h
    rw [← String.toList_inj]
    cases h with
    | none => rfl
    | bool b => rfl
    | int n => rfl
    | float h => exact String.toList_inj.2 (Decimal.Layout.text_eq_iff.2 h)
    | str s => rfl
    | list h =>
      rw [toList_text_list, toList_text_list, items h fun _ hm => hm]
    | tuple h =>
      rw [toList_text_tuple, toList_text_tuple, items h fun _ hm => hm, h.length_eq]
    | dict hk hv =>
      rw [toList_text_dict, toList_text_dict, map_entryText_eq, map_entryText_eq,
        items hk fun _ hm => List.mem_append_left _ hm,
        items hv fun _ hm => List.mem_append_right _ hm]

/-! ## What a text tells -/

/-- Before the end of an item, a text tells the value it stands for, the bits of NaNs apart, and
what stands behind it. -/
theorem text_append_eq_iff {v w : Value} {s t : String} (hs : EndsItem s.toList)
    (ht : EndsItem t.toList) : v.text ++ s = w.text ++ t ↔ Identical v w ∧ s = t := by
  refine ⟨?_, ?_⟩
  · intro h
    have hlists : v.text.toList ++ s.toList = w.text.toList ++ t.toList := by
      rw [← String.toList_append, h, String.toList_append]
    obtain ⟨hvw, hst⟩ := delimits_text v hs ht hlists
    exact ⟨hvw, String.toList_inj.1 hst⟩
  · intro h
    obtain ⟨hvw, hst⟩ := h
    rw [text_eq_of_identical hvw, hst]

/-- Two NaNs are shown alike deep in a dict, under a key that is a text full of separators and
stands there twice. -/
theorem nested_nans_shown_alike :
    let v : Value := .dict
      [(.str "\"\x7d, ", .tuple [.float ⟨0x7ff8000000000000⟩]), (.str "\"\x7d, ", .int (-1))]
    let w : Value := .dict
      [(.str "\"\x7d, ", .tuple [.float ⟨0xfff0000000000001⟩]), (.str "\"\x7d, ", .int (-1))]
    EndsItem ", 2]".toList ∧ v.text ++ ", 2]" = w.text ++ ", 2]" ∧ Identical v w := by
  intro v w
  have hs : EndsItem ", 2]".toList := by simp [EndsItem, endsItem]
  have htext : v.text ++ ", 2]" = w.text ++ ", 2]" := by decide +kernel
  exact ⟨hs, htext, ((text_append_eq_iff hs hs).1 htext).1⟩

/-- A digit behind an integer may be its own. -/
example : (Value.int 1).text ++ "2" = (Value.int 12).text ++ "" := by decide

end Value
end CallContract
