import CallContract.Text.Listed
import Mathlib.Data.List.Forall2
import Mathlib.Data.List.Pairwise

/-!
# Texts that show where they end

Reports put texts one behind the other. What they are about can be told from the whole when each
text shows, together with what may stand behind it, where it ends (`Delimits`). Names out of a
fixed set and texts in brackets do so before anything; decimals need a character behind them that
is not a digit; items of a list need one that ends an item.

**Results.**
* `delimits_of_prefixFree`: texts none of which begins another, before anything.
* `delimits_nat`, `readInt_toString`: decimals.
* `forall₂_of_listed_eq`: lists show their items and their end when the items do.
-/
namespace CallContract.Text

variable {α : Type} {text : α → String} {same : α → α → Prop} {stop : List Char → Prop}

/-- Whatever else is continued to the same characters is the same thing, and is continued alike. -/
def Delimits (text : α → String) (same : α → α → Prop) (stop : List Char → Prop) (a : α) : Prop :=
  ∀ ⦃b : α⦄ ⦃s t : List Char⦄, stop s → stop t →
    (text a).toList ++ s = (text b).toList ++ t → same a b ∧ s = t

/-- No condition on what follows. -/
def anything (_ : List Char) : Prop := True

/-- What follows does not begin with a character like these. -/
def StopsAt (p : Char → Prop) (s : List Char) : Prop := ∀ c ∈ s.head?, ¬p c

theorem Delimits.mono {a : α} (h : Delimits text same stop a) {stop' : List Char → Prop}
    (hstop : ∀ s, stop' s → stop s) : Delimits text same stop' a :=
  fun _ s t hs ht he => h (hstop s hs) (hstop t ht) he

theorem Delimits.of_anything {a : α} (h : Delimits text same anything a) :
    Delimits text same stop a := h.mono fun _ _ => trivial

theorem Delimits.eq_of_text_eq {a b : α} (h : Delimits text same stop a) (hstop : stop [])
    (he : text a = text b) : same a b :=
  (h hstop hstop (congrArg (·.toList ++ []) he)).1

/-- Between two fixed texts, as long as the second may follow. -/
theorem Delimits.between {a : α} (h : Delimits text same stop a) (first last : String)
    {stop' : List Char → Prop} (hstop : ∀ s, stop' s → stop (last.toList ++ s)) :
    Delimits (fun x => first ++ text x ++ last) same stop' a := by
  intro b s t hs ht he
  simp only [String.toList_append, List.append_assoc] at he
  obtain ⟨hab, hst⟩ := h (hstop s hs) (hstop t ht) (List.append_cancel_left he)
  exact ⟨hab, List.append_cancel_left hst⟩

/-! ## Names -/

/-- None of the texts begins another. -/
def PrefixFree (texts : List (List Char)) : Prop :=
  texts.Pairwise fun a b => ¬a <+: b ∧ ¬b <+: a

instance (texts : List (List Char)) : Decidable (PrefixFree texts) :=
  inferInstanceAs (Decidable (texts.Pairwise fun a b => ¬a <+: b ∧ ¬b <+: a))

theorem PrefixFree.eq_of_append_eq {texts : List (List Char)} (h : PrefixFree texts)
    {a b s t : List Char} (ha : a ∈ texts) (hb : b ∈ texts) (he : a ++ s = b ++ t) :
    a = b ∧ s = t := by
  have hp := List.prefix_or_prefix_of_prefix (List.prefix_append a s)
    (he ▸ List.prefix_append b t)
  have hab : a = b := by
    by_contra hne
    have : Std.Symm fun a b : List Char => ¬a <+: b ∧ ¬b <+: a := ⟨fun _ _ => And.symm⟩
    obtain ⟨hnab, hnba⟩ := List.Pairwise.forall h ha hb hne
    exact hp.elim hnab hnba
  subst hab
  exact ⟨rfl, List.append_cancel_left he⟩

theorem delimits_of_prefixFree {texts : List (List Char)} (h : PrefixFree texts)
    (hmem : ∀ a, (text a).toList ∈ texts) (hinj : ∀ a b, text a = text b → a = b) (a : α) :
    Delimits text Eq anything a := by
  intro b s t _ _ he
  obtain ⟨hab, hst⟩ := h.eq_of_append_eq (hmem a) (hmem b) he
  exact ⟨hinj a b (String.toList_inj.1 hab), hst⟩

/-! ## Runs of characters -/

theorem run_eq_of_append_eq {p : Char → Prop} {a b s t : List Char} (ha : ∀ c ∈ a, p c)
    (hb : ∀ c ∈ b, p c) (hs : StopsAt p s) (ht : StopsAt p t) (h : a ++ s = b ++ t) :
    a = b ∧ s = t := by
  induction a generalizing b with
  | nil =>
    cases b with
    | nil => exact ⟨rfl, h⟩
    | cons d b => exact absurd (hb d List.mem_cons_self) (hs d (by simp [show s = _ from h]))
  | cons c a ih =>
    cases b with
    | nil =>
      exact absurd (ha c List.mem_cons_self) (ht c (by simp [show t = _ from h.symm]))
    | cons d b =>
      obtain ⟨rfl, htail⟩ := List.cons.inj h
      obtain ⟨rfl, rfl⟩ := ih (fun x hx => ha x (List.mem_cons_of_mem _ hx))
        (fun x hx => hb x (List.mem_cons_of_mem _ hx)) htail
      exact ⟨rfl, rfl⟩

/-- Runs at the end, read from there. -/
theorem eq_of_append_run_eq {p : Char → Prop} {a b s t : List Char} (ha : ∀ c ∈ a, p c)
    (hb : ∀ c ∈ b, p c) (hs : ∀ c ∈ s.getLast?, ¬p c) (ht : ∀ c ∈ t.getLast?, ¬p c)
    (h : s ++ a = t ++ b) : s = t ∧ a = b := by
  have hreverse : a.reverse ++ s.reverse = b.reverse ++ t.reverse := by
    rw [← List.reverse_append, h, List.reverse_append]
  obtain ⟨hab, hst⟩ := run_eq_of_append_eq (p := p) (by simpa using ha) (by simpa using hb)
    (by simpa [StopsAt] using hs) (by simpa [StopsAt] using ht) hreverse
  exact ⟨List.reverse_inj.1 hst, List.reverse_inj.1 hab⟩

theorem delimits_of_run {p : Char → Prop} (hp : ∀ a, ∀ c ∈ (text a).toList, p c)
    (hinj : ∀ a b, text a = text b → same a b) (a : α) : Delimits text same (StopsAt p) a := by
  intro b s t hs ht he
  obtain ⟨hab, hst⟩ := run_eq_of_append_eq (hp a) (hp b) hs ht he
  exact ⟨hinj a b (String.toList_inj.1 hab), hst⟩

/-! ## Decimals -/

theorem isDigit_of_mem_nat {n : Nat} {c : Char} (h : c ∈ (toString n).toList) :
    c.isDigit = true := by
  rw [Nat.toString_eq_repr, Nat.toList_repr] at h
  exact Nat.isDigit_of_mem_toDigits (by decide) (by decide) h

theorem isDigit_or_minus_of_mem_int {n : Int} {c : Char} (h : c ∈ (toString n).toList) :
    c.isDigit = true ∨ c = '-' := by
  rw [Int.toString_eq_repr, Int.repr_eq_if, ← Nat.toString_eq_repr, ← Nat.toString_eq_repr] at h
  split at h
  · exact .inl (isDigit_of_mem_nat h)
  · rw [String.toList_append] at h
    rcases List.mem_append.1 h with h | h
    · exact .inr (List.mem_singleton.1 h)
    · exact .inl (isDigit_of_mem_nat h)

/-- The whole number that a text of digits stands for, a minus sign before them or none. -/
def readInt : List Char → Int
  | '-' :: digits => -(Nat.ofDigitChars 10 digits 0 : Int)
  | digits => Nat.ofDigitChars 10 digits 0

theorem readInt_of_isDigit {digits : List Char} (h : ∀ c ∈ digits, c.isDigit = true) :
    readInt digits = Nat.ofDigitChars 10 digits 0 := by
  unfold readInt
  split
  · exact absurd (h '-' List.mem_cons_self) (by decide)
  · rfl

theorem readInt_toString_nat (n : Nat) : readInt (toString n).toList = n := by
  rw [readInt_of_isDigit fun _ => isDigit_of_mem_nat, Nat.toString_eq_repr, Nat.toList_repr,
    Nat.ofDigitChars_ten_toDigits]

theorem readInt_toString (n : Int) : readInt (toString n).toList = n := by
  rw [Int.toString_eq_repr, Int.repr_eq_if, ← Nat.toString_eq_repr, ← Nat.toString_eq_repr]
  split
  · rw [readInt_toString_nat]
    omega
  · rw [String.toList_append, Nat.toString_eq_repr, Nat.toList_repr]
    show -((Nat.ofDigitChars 10 (Nat.toDigits 10 (-n).toNat) 0 : Nat) : Int) = n
    rw [Nat.ofDigitChars_ten_toDigits]
    omega

theorem toString_int_ne_nil (n : Int) : (toString n).toList ≠ [] := by
  rw [Int.toString_eq_repr, Int.repr_eq_if]
  split
  · rw [Nat.toList_repr]
    exact Nat.toDigits_ne_nil
  · simp

theorem exists_toString_nat_eq_cons (n : Nat) :
    ∃ c cs, (toString n).toList = c :: cs ∧ c.isDigit = true := by
  have hne : (toString n).toList ≠ [] := by
    rw [Nat.toString_eq_repr, Nat.toList_repr]
    exact Nat.toDigits_ne_nil
  obtain ⟨c, cs, hc⟩ := List.exists_cons_of_ne_nil hne
  exact ⟨c, cs, hc, isDigit_of_mem_nat (hc ▸ List.mem_cons_self)⟩

theorem toString_nat_injective {m n : Nat} (h : toString m = toString n) : m = n :=
  Int.ofNat_inj.1 (by rw [← readInt_toString_nat, h, readInt_toString_nat])

theorem delimits_nat (n : Nat) :
    Delimits (toString : Nat → String) Eq (StopsAt (·.isDigit = true)) n :=
  delimits_of_run (fun _ _ => isDigit_of_mem_nat) (fun _ _ => toString_nat_injective) n

/-- A count between two fixed texts, the first of which ends in no digit. -/
theorem eq_of_append_nat_eq {s t : List Char} {m n : Nat} {first : List Char} (last : List Char)
    {c : Char} (hfirst : first.getLast? = some c) (hc : c.isDigit = false)
    (h : s ++ first ++ (toString m).toList ++ last = t ++ first ++ (toString n).toList ++ last) :
    s = t ∧ m = n := by
  have hends (u : List Char) : ∀ d ∈ (u ++ first).getLast?, ¬d.isDigit = true := by
    intro d hd
    rw [List.getLast?_append, hfirst, Option.some_or, Option.mem_some_iff] at hd
    rw [← hd, hc]
    exact Bool.false_ne_true
  obtain ⟨hst, hmn⟩ := eq_of_append_run_eq (fun _ => isDigit_of_mem_nat)
    (fun _ => isDigit_of_mem_nat) (hends s) (hends t) (List.append_cancel_right h)
  exact ⟨List.append_cancel_right hst, toString_nat_injective (String.toList_inj.1 hmn)⟩

/-! ## Lists -/

/-- Whether the character ends an item: it separates items, closes brackets or stands behind a
key. -/
def endsItem (c : Char) : Bool := c ∈ [',', ')', ']', '\x7d', ':']

/-- What follows an item: nothing, or a character that ends it. -/
def EndsItem (s : List Char) : Prop := ∀ c ∈ s.head?, endsItem c = true

theorem endsItem_nil : EndsItem [] := fun _ h => nomatch h

/-- What follows a list: a character that ends an item, but not the separator of items. -/
structure EndsList (s : List Char) : Prop where
  ends : EndsItem s
  ne_nil : s ≠ []
  not_separator : ¬[',', ' '] <+: s

/-- A closing bracket follows a list. -/
theorem endsList_cons {c : Char} (h : c ∈ [')', ']', '\x7d']) (s : List Char) :
    EndsList (c :: s) where
  ends a ha := by
    cases ha
    exact List.all_eq_true.1 (by decide : [')', ']', '\x7d'].all endsItem = true) c h
  ne_nil := List.cons_ne_nil _ _
  not_separator hp := by
    have hc : ',' = c := (List.cons_prefix_cons.1 hp).1
    exact absurd (hc ▸ h) (by decide)

/-- Items begin with a character that ends none. -/
def BeginsItem (text : List Char) : Prop := ∃ c cs, text = c :: cs ∧ endsItem c = false

theorem BeginsItem.append_ne {a b s : List Char} (h : BeginsItem a) (hs : EndsItem s)
    (hne : s ≠ []) : a ++ b ≠ s := by
  rintro rfl
  obtain ⟨c, cs, rfl, hc⟩ := h
  have := hs c (by simp)
  simp [hc] at this

/-- What follows the first item of a list, given the others and what follows the list. -/
def afterItem : List String → List Char → List Char
  | [], s => s
  | next :: rest, s => ',' :: ' ' :: ((listed (next :: rest)).toList ++ s)

theorem listed_cons_append (first : String) (rest : List String) (s : List Char) :
    (listed (first :: rest)).toList ++ s = first.toList ++ afterItem rest s := by
  cases rest <;> simp [afterItem]

theorem EndsList.endsItem_afterItem {s : List Char} (h : EndsList s) (rest : List String) :
    EndsItem (afterItem rest s) := by
  cases rest with
  | nil => exact h.ends
  | cons next rest => simp [afterItem, EndsItem, endsItem]

theorem EndsList.ne_separated {s u : List Char} (h : EndsList s) : s ≠ ',' :: ' ' :: u := by
  rintro rfl
  exact h.not_separator (List.prefix_append [',', ' '] u)

theorem forall₂_of_listed_eq (hstart : ∀ a, BeginsItem (text a).toList) {xs ys : List α}
    (hx : ∀ x ∈ xs, Delimits text same EndsItem x) {s t : List Char} (hs : EndsList s)
    (ht : EndsList t)
    (h : (listed (xs.map text)).toList ++ s = (listed (ys.map text)).toList ++ t) :
    List.Forall₂ same xs ys ∧ s = t := by
  induction xs generalizing ys with
  | nil =>
    cases ys with
    | nil => exact ⟨.nil, h⟩
    | cons y ys =>
      rw [List.map_cons, listed_cons_append] at h
      exact absurd h.symm ((hstart y).append_ne hs.ends hs.ne_nil)
  | cons x xs ih =>
    rw [List.map_cons, listed_cons_append] at h
    cases ys with
    | nil => exact absurd h ((hstart x).append_ne ht.ends ht.ne_nil)
    | cons y ys =>
      rw [List.map_cons, listed_cons_append] at h
      obtain ⟨hxy, hrest⟩ := hx x List.mem_cons_self (hs.endsItem_afterItem _)
        (ht.endsItem_afterItem _) h
      cases xs with
      | nil =>
        cases ys with
        | nil => exact ⟨.cons hxy .nil, hrest⟩
        | cons y' ys => exact absurd hrest hs.ne_separated
      | cons x' xs =>
        cases ys with
        | nil => exact absurd hrest.symm ht.ne_separated
        | cons y' ys =>
          have htail : (listed ((x' :: xs).map text)).toList ++ s =
              (listed ((y' :: ys).map text)).toList ++ t :=
            (List.cons.inj (List.cons.inj hrest).2).2
          obtain ⟨hall, hst⟩ := ih (fun z hz => hx z (List.mem_cons_of_mem _ hz)) htail
          exact ⟨.cons hxy hall, hst⟩

end CallContract.Text
