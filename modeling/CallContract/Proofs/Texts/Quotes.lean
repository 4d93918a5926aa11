import CallContract.Proofs.Texts.Delimited
import CallContract.Text.Quoted

/-!
# Quoted texts and the quotes around names

A quoted text shows where it ends whatever follows: escaped characters are read back one by one
(`readEscaped`), and none of them begins with the closing quote.

A name between single quotes is not escaped and may hold anything, the end that a report puts behind
names included. It can be told from what follows all the same, when what follows is `Closed`: the
double quotes in it open and close texts, and single quotes and backslashes stand within these
alone. If one of two ends lay within the name, what follows it would be closed when read from
outside of a text and when read from within one, and it is at most one of both.

**Results.**
* `delimits_quoted`: quoted texts, before anything.
* `scan_ne_scan`: the two readings never end in the same place.
* `eq_of_append_end_eq`: names between single quotes, before closed texts.
-/
namespace CallContract.Text

/-! ## Hexadecimal digits -/

def hexDigit (c : Char) : Nat := if c.isDigit then c.toNat - 48 else c.toNat - 87

/-- The number that hexadecimal digits stand for. -/
def readHex (digits : List Char) : Nat := digits.foldl (fun n c => 16 * n + hexDigit c) 0

theorem hexDigit_digitChar : ∀ d < 16, hexDigit (Nat.digitChar d) = d := by decide

theorem readHex_toDigits (n : Nat) : readHex (Nat.toDigits 16 n) = n := by
  induction n using Nat.strongRecOn with
  | ind n ih =>
    by_cases hn : n < 16
    · rw [Nat.toDigits_of_lt_base hn]
      simpa [readHex] using hexDigit_digitChar n hn
    · have hih := ih (n / 16) (by omega)
      rw [readHex] at hih
      rw [Nat.toDigits_of_base_le (by decide) (by omega), readHex, List.foldl_append, hih,
        List.foldl_cons, List.foldl_nil, hexDigit_digitChar _ (Nat.mod_lt _ (by decide))]
      omega

theorem exists_digitChar_of_mem {n : Nat} {c : Char} (h : c ∈ Nat.toDigits 16 n) :
    ∃ d < 16, c = Nat.digitChar d := by
  induction n using Nat.strongRecOn with
  | ind n ih =>
    by_cases hn : n < 16
    · rw [Nat.toDigits_of_lt_base hn] at h
      exact ⟨n, hn, List.mem_singleton.1 h⟩
    · rw [Nat.toDigits_of_base_le (by decide) (by omega)] at h
      rcases List.mem_append.1 h with h | h
      · exact ih (n / 16) (by omega) h
      · exact ⟨n % 16, Nat.mod_lt _ (by decide), List.mem_singleton.1 h⟩

/-! ## Escaped characters -/

/-- The first character of a text in which characters are escaped, and what follows it. -/
def readEscaped : List Char → Option (Char × List Char)
  | '\\' :: 'u' :: '\x7b' :: rest =>
    some (Char.ofNat (readHex (rest.takeWhile (· != '\x7d'))),
      (rest.dropWhile (· != '\x7d')).drop 1)
  | '\\' :: '0' :: rest => some ('\x00', rest)
  | '\\' :: 't' :: rest => some ('\t', rest)
  | '\\' :: 'n' :: rest => some ('\n', rest)
  | '\\' :: 'r' :: rest => some ('\r', rest)
  | '\\' :: c :: rest => some (c, rest)
  | c :: rest => some (c, rest)
  | [] => none

theorem readEscaped_codePoint (c : Char) (rest : List Char) :
    readEscaped (['\\', 'u', '\x7b'] ++ Nat.toDigits 16 c.toNat ++ ['\x7d'] ++ rest) =
      some (c, rest) := by
  have hdigit : ∀ a ∈ Nat.toDigits 16 c.toNat, (a != '\x7d') = true := fun a ha => by
    obtain ⟨d, hd, rfl⟩ := exists_digitChar_of_mem ha
    exact (by decide : ∀ d < 16, (Nat.digitChar d != '\x7d') = true) d hd
  simp only [List.cons_append, List.nil_append, List.append_assoc]
  rw [readEscaped, List.takeWhile_append_of_pos hdigit, List.dropWhile_append_of_pos hdigit]
  simp [readHex_toDigits]

theorem readEscaped_raw {c : Char} (h : c ≠ '\\') (rest : List Char) :
    readEscaped (c :: rest) = some (c, rest) := by
  unfold readEscaped
  split <;> simp_all

theorem readEscaped_escape (c : Char) (rest : List Char) :
    readEscaped (escape c ++ rest) = some (c, rest) := by
  unfold escape
  split_ifs <;> first
    | subst_vars; rfl
    | exact readEscaped_raw (by assumption) rest
    | exact readEscaped_codePoint c rest

theorem eq_of_escape_append_eq {c d : Char} {s t : List Char}
    (h : escape c ++ s = escape d ++ t) : c = d ∧ s = t := by
  have hread := congrArg readEscaped h
  rw [readEscaped_escape, readEscaped_escape] at hread
  exact Prod.mk.inj (Option.some.inj hread)

/-- A character stands raw, or it stands behind a backslash together with characters that are
neither double quotes nor backslashes. -/
theorem escape_cases (c : Char) :
    (escape c = [c] ∧ c ≠ '"' ∧ c ≠ '\\') ∨
      ∃ d ds, escape c = '\\' :: d :: ds ∧ ∀ a ∈ ds, a ≠ '"' ∧ a ≠ '\\' := by
  have hdigit : ∀ a ∈ Nat.toDigits 16 c.toNat, a ≠ '"' ∧ a ≠ '\\' := fun a ha => by
    obtain ⟨d, hd, rfl⟩ := exists_digitChar_of_mem ha
    exact (by decide : ∀ d < 16, Nat.digitChar d ≠ '"' ∧ Nat.digitChar d ≠ '\\') d hd
  unfold escape
  split_ifs <;> first
    | exact .inr ⟨_, [], rfl, by simp⟩
    | exact .inl ⟨rfl, by assumption, by assumption⟩
    | exact .inr ⟨'u', '\x7b' :: (Nat.toDigits 16 c.toNat ++ ['\x7d']), rfl, by
        simpa [or_imp, forall_and] using hdigit⟩

theorem escape_append_ne (c : Char) (s t : List Char) : escape c ++ s ≠ '"' :: t := by
  rcases escape_cases c with ⟨he, hq, -⟩ | ⟨d, ds, he, -⟩ <;> rw [he] <;> intro h
  · exact hq (List.cons.inj h).1
  · exact absurd (List.cons.inj h).1 (by decide)

/-! ## Quoted texts -/

theorem eq_of_flatMap_escape_eq {cs ds s t : List Char}
    (h : cs.flatMap escape ++ '"' :: s = ds.flatMap escape ++ '"' :: t) : cs = ds ∧ s = t := by
  induction cs generalizing ds with
  | nil =>
    cases ds with
    | nil => exact ⟨rfl, (List.cons.inj h).2⟩
    | cons d ds =>
      rw [List.flatMap_cons, List.append_assoc] at h
      exact absurd h.symm (escape_append_ne d _ _)
  | cons c cs ih =>
    rw [List.flatMap_cons, List.append_assoc] at h
    cases ds with
    | nil => exact absurd h (escape_append_ne c _ _)
    | cons d ds =>
      rw [List.flatMap_cons, List.append_assoc] at h
      obtain ⟨rfl, htail⟩ := eq_of_escape_append_eq h
      obtain ⟨rfl, rfl⟩ := ih htail
      exact ⟨rfl, rfl⟩

theorem delimits_quoted (a : String) : Delimits quoted Eq anything a := by
  intro b s t _ _ h
  simp only [toList_quoted, List.cons_append, List.append_assoc, List.nil_append] at h
  obtain ⟨hab, hst⟩ := eq_of_flatMap_escape_eq (List.cons.inj h).2
  exact ⟨String.toList_inj.1 hab, hst⟩

/-! ## Inside and outside of quoted texts -/

/-- Where a reader of a report is. -/
inductive Place where
  | outside
  | inside
  /-- Inside of a quoted text, behind a backslash. -/
  | escaped
deriving DecidableEq

/-- Outside of quoted texts there are neither single quotes nor backslashes. -/
def advance : Place → Char → Option Place
  | .outside, c =>
    if c = '"' then some .inside
    else if c = '\\' ∨ c = '\x27' then none
    else some .outside
  | .inside, c =>
    if c = '"' then some .outside
    else if c = '\\' then some .escaped
    else some .inside
  | .escaped, _ => some .inside

def scan (place : Place) (text : List Char) : Option Place := text.foldlM advance place

/-- Read from outside of quoted texts, the text ends outside of them. -/
def Closed (text : List Char) : Prop := scan .outside text = some .outside

instance (text : List Char) : Decidable (Closed text) :=
  inferInstanceAs (Decidable (scan .outside text = some .outside))

theorem scan_cons (place : Place) (c : Char) (text : List Char) :
    scan place (c :: text) = (advance place c).bind (scan · text) := rfl

theorem scan_append (place : Place) (s t : List Char) :
    scan place (s ++ t) = (scan place s).bind (scan · t) := List.foldlM_append

theorem Closed.append {s t : List Char} (hs : Closed s) (ht : Closed t) : Closed (s ++ t) := by
  rw [Closed, scan_append, hs]
  exact ht

theorem Closed.between {text first last : String} (h : Closed text.toList)
    (hf : Closed first.toList) (hl : Closed last.toList) :
    Closed (first ++ text ++ last).toList := by
  rw [String.toList_append, String.toList_append]
  exact (hf.append h).append hl

/-- A character that neither opens nor closes a quoted text, nor may stand in one alone. -/
def IsPlain (c : Char) : Prop := c ≠ '"' ∧ c ≠ '\\' ∧ c ≠ '\x27'

instance (c : Char) : Decidable (IsPlain c) :=
  inferInstanceAs (Decidable (c ≠ '"' ∧ c ≠ '\\' ∧ c ≠ '\x27'))

theorem scan_inside {text : List Char} (h : ∀ c ∈ text, c ≠ '"' ∧ c ≠ '\\') :
    scan .inside text = some .inside := by
  induction text with
  | nil => rfl
  | cons c text ih =>
    obtain ⟨hq, hb⟩ := h c List.mem_cons_self
    rw [scan_cons, advance, if_neg hq, if_neg hb]
    exact ih fun a ha => h a (List.mem_cons_of_mem _ ha)

theorem closed_of_isPlain {text : List Char} (h : ∀ c ∈ text, IsPlain c) : Closed text := by
  induction text with
  | nil => rfl
  | cons c text ih =>
    obtain ⟨hq, hb, hs⟩ := h c List.mem_cons_self
    rw [Closed, scan_cons, advance, if_neg hq, if_neg (not_or.2 ⟨hb, hs⟩)]
    exact ih fun a ha => h a (List.mem_cons_of_mem _ ha)

theorem scan_escape (c : Char) : scan .inside (escape c) = some .inside := by
  rcases escape_cases c with ⟨he, hq, hb⟩ | ⟨d, ds, he, hds⟩
  · exact he ▸ scan_inside (by simp [hq, hb])
  · rw [he]
    show scan .inside ds = some .inside
    exact scan_inside hds

theorem scan_flatMap_escape (cs : List Char) : scan .inside (cs.flatMap escape) = some .inside := by
  induction cs with
  | nil => rfl
  | cons c cs ih =>
    rw [List.flatMap_cons, scan_append, scan_escape]
    exact ih

theorem closed_quoted (a : String) : Closed (quoted a).toList := by
  rw [toList_quoted, Closed, List.cons_append, scan_cons]
  show scan .inside (a.toList.flatMap escape ++ ['"']) = some .outside
  rw [scan_append, scan_flatMap_escape]
  rfl

theorem closed_listed {texts : List String} (h : ∀ text ∈ texts, Closed text.toList) :
    Closed (listed texts).toList := by
  induction texts with
  | nil => rfl
  | cons first rest ih =>
    have hfirst := h first List.mem_cons_self
    have hrest := ih fun text ht => h text (List.mem_cons_of_mem _ ht)
    cases rest with
    | nil => exact hfirst
    | cons next rest =>
      rw [listed_cons_cons, String.toList_append, String.toList_append]
      exact (hfirst.append (by decide)).append hrest

/-! ## Names between single quotes -/

/-- Read from outside and from inside, a text never ends in one place. A double quote exchanges the
two readers, and the one outside cannot pass a backslash. -/
theorem scan_ne_scan {text : List Char} {p q : Place} (hp : scan .outside text = some p)
    (hq : scan .inside text = some q) : p ≠ q := by
  induction text generalizing p q with
  | nil => cases hp; cases hq; decide
  | cons c text ih =>
    rw [scan_cons] at hp hq
    by_cases hc : c = '"'
    · subst hc
      exact (ih hq hp).symm
    · by_cases hn : c = '\\' ∨ c = '\x27'
      · rw [advance, if_neg hc, if_pos hn] at hp
        cases hp
      · rw [advance, if_neg hc, if_neg hn] at hp
        rw [advance, if_neg hc, if_neg fun hb => hn (.inl hb)] at hq
        exact ih hp hq

/-- An end of a name, closed text behind it, is not found again in closed text. -/
theorem not_closed_of_end {k mid t : List Char} (hmid : ∀ c ∈ mid, IsPlain c) (ht : Closed t) :
    ¬Closed (k ++ '\x27' :: (mid ++ t)) := by
  intro hclosed
  rw [Closed, scan_append] at hclosed
  obtain ⟨p, -, hp⟩ := Option.bind_eq_some_iff.1 hclosed
  have hinside : scan .inside (mid ++ t) = some .outside := by
    cases p with
    | outside => cases hp
    | inside => exact hp
    | escaped => exact hp
  rw [scan_append, scan_inside fun c hc => ⟨(hmid c hc).1, (hmid c hc).2.1⟩] at hinside
  exact scan_ne_scan ht hinside rfl

/-- A name is told from the rest by the quote behind it, whatever the name holds. -/
theorem eq_of_append_end_eq {a b mid s t : List Char} (hmid : ∀ c ∈ mid, IsPlain c)
    (hs : Closed s) (ht : Closed t)
    (h : a ++ '\x27' :: (mid ++ s) = b ++ '\x27' :: (mid ++ t)) : a = b ∧ s = t := by
  have apart {m s t : List Char} (hs : Closed s) (ht : Closed t)
      (h : '\x27' :: (mid ++ s) = m ++ '\x27' :: (mid ++ t)) : m = [] := by
    cases m with
    | nil => rfl
    | cons c m =>
      have htail := (List.cons.inj h).2
      rcases List.append_eq_append_iff.1 htail with ⟨k, hm, hk⟩ | ⟨k, hk, hm⟩
      · exact absurd (hk ▸ hs) (not_closed_of_end hmid ht)
      · cases k with
        | nil =>
          rw [List.nil_append] at hm
          exact absurd (hm ▸ hs) (not_closed_of_end (k := []) hmid ht)
        | cons d k =>
          have hd : '\x27' ∈ mid := by
            rw [hk, ← (List.cons.inj hm).1]
            exact List.mem_append_right _ List.mem_cons_self
          exact absurd rfl (hmid _ hd).2.2
  have hab : a = b := by
    rcases List.append_eq_append_iff.1 h with ⟨m, hb, hm⟩ | ⟨m, ha, hm⟩
    · rw [hb, apart hs ht hm, List.append_nil]
    · rw [ha, apart ht hs hm, List.append_nil]
  subst hab
  exact ⟨rfl, List.append_cancel_left (List.cons.inj (List.append_cancel_left h)).2⟩

end CallContract.Text
