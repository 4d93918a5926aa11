import CallContract.Proofs.Checks.Text
import CallContract.Proofs.Failures.Messages
import CallContract.Proofs.Values.Text

/-!
# The attributes of a failure tell it

The `repr` of a failure names its kind and lists its attributes. The texts, checks and values among
these show where they end, whatever they hold. An argument given by keyword does so only together
with the attributes behind it, since its keyword stands between single quotes as it is: these
attributes are `Closed`, and so no end of a keyword is found in them.

Failures are identical when nothing but the bits of NaNs and the column of a place in a source file,
which is not printed, tells them apart.

**Results.**
* `Argument.delimits_repr`: arguments, before closed text.
* `repr_eq_iff`: two failures have one `repr` exactly when they are identical.
-/
namespace CallContract

open Text

/-! ## Parameters and places -/

/-- Decimals are followed by nothing, or by a character that ends an item. -/
theorem delimits_index (n : Nat) : Delimits (toString : Nat → String) Eq EndsItem n :=
  (delimits_nat n).mono fun s hs c hc hd => by
    have hend := hs c hc
    rw [endsItem, decide_eq_true_iff] at hend
    have hnone : [',', ')', ']', '\x7d', ':'].any (·.isDigit) = false := by decide
    exact List.any_eq_false.1 hnone c hend hd

theorem ParamRef.delimits_repr (p : ParamRef) : Delimits ParamRef.repr Eq anything p := by
  intro q s t _ _ h
  unfold ParamRef.repr at h
  simp only [String.toList_append, List.append_assoc] at h
  obtain ⟨hindex, hrest⟩ := delimits_index p.index (by simp [EndsItem, endsItem])
    (by simp [EndsItem, endsItem]) (List.append_cancel_left h)
  obtain ⟨hname, hend⟩ := delimits_quoted p.name trivial trivial (List.append_cancel_left hrest)
  refine ⟨?_, List.append_cancel_left hend⟩
  cases p
  cases q
  exact congrArg₂ _ hindex hname

theorem Location.delimits_repr (l : Location) :
    Delimits Location.repr (fun l l' => l.file = l'.file ∧ l.line = l'.line) anything l := by
  intro l' s t _ _ h
  unfold Location.repr at h
  simp only [String.toList_append, List.append_assoc] at h
  obtain ⟨hfile, hrest⟩ := delimits_quoted l.file trivial trivial (List.append_cancel_left h)
  obtain ⟨hline, hend⟩ := delimits_index l.line (by simp [EndsItem, endsItem])
    (by simp [EndsItem, endsItem]) (List.append_cancel_left hrest)
  exact ⟨⟨hfile, hline⟩, List.append_cancel_left hend⟩

theorem Location.repr_eq {l l' : Location} (hfile : l.file = l'.file) (hline : l.line = l'.line) :
    l.repr = l'.repr := by
  unfold Location.repr
  rw [hfile, hline]

/-! ## Arguments -/

theorem Source.eq_of_text_append {a b : Source} {s t : List Char} (hs : Closed s) (ht : Closed t)
    (h : a.text.toList ++ (", value=".toList ++ s) = b.text.toList ++ (", value=".toList ++ t)) :
    a = b ∧ s = t := by
  have number {n : Nat} {c : Char} {u v : List Char} (hc : c.isDigit = false) :
      (toString n).toList ++ u ≠ c :: v := fun he => by
    obtain ⟨d, ds, hd, hdigit⟩ := exists_toString_nat_eq_cons n
    rw [hd] at he
    exact Bool.false_ne_true (hc ▸ (List.cons.inj he).1 ▸ hdigit)
  have plain : ∀ c ∈ ", value=".toList, IsPlain c := by simp [IsPlain]
  have quoted (name : String) (u : List Char) :
      (text (.keyword name)).toList ++ u = '\x27' :: (name.toList ++ '\x27' :: u) := by
    unfold text
    simp
  have unquoted (u : List Char) : (text .default).toList ++ u = 'd' :: ("efault".toList ++ u) := rfl
  cases a with
  | positional m =>
    cases b with
    | positional n =>
      obtain ⟨rfl, hrest⟩ := delimits_index m (by simp [EndsItem, endsItem])
        (by simp [EndsItem, endsItem]) h
      exact ⟨rfl, List.append_cancel_left hrest⟩
    | keyword name => exact absurd (h.trans (quoted name _)) (number (by decide))
    | default => exact absurd (h.trans (unquoted _)) (number (by decide))
  | keyword name =>
    cases b with
    | positional n => exact absurd (h.symm.trans (quoted name _)) (number (by decide))
    | keyword name' =>
      rw [quoted, quoted] at h
      obtain ⟨hname, hst⟩ := eq_of_append_end_eq plain hs ht (List.cons.inj h).2
      exact ⟨congrArg _ (String.toList_inj.1 hname), hst⟩
    | default =>
      rw [quoted, unquoted] at h
      exact absurd (List.cons.inj h).1 (by decide)
  | default =>
    cases b with
    | positional n => exact absurd (h.symm.trans (unquoted _)) (number (by decide))
    | keyword name =>
      rw [quoted, unquoted] at h
      exact absurd (List.cons.inj h).1 (by decide)
    | default => exact ⟨rfl, List.append_cancel_left (List.append_cancel_left h)⟩

namespace Argument

/-- One source, and values that are identical. -/
structure Identical (a b : Argument) : Prop where
  source : a.source = b.source
  value : a.value.Identical b.value

theorem delimits_repr (a : Argument) : Delimits repr Identical Closed a := by
  intro b s t hs ht h
  unfold repr at h
  simp only [String.toList_append, List.append_assoc] at h
  have closed (v : Value) {u : List Char} (hu : Closed u) :
      Closed (v.text.toList ++ (")".toList ++ u)) :=
    v.closed_text.append ((by decide : Closed ")".toList).append hu)
  obtain ⟨hsource, hrest⟩ := Source.eq_of_text_append (closed _ hs) (closed _ ht)
    (List.append_cancel_left h)
  obtain ⟨hvalue, hst⟩ := a.value.delimits_text (by simp [EndsItem, endsItem])
    (by simp [EndsItem, endsItem]) hrest
  exact ⟨⟨hsource, hvalue⟩, List.append_cancel_left hst⟩

theorem Identical.repr_eq {a b : Argument} (h : Identical a b) : a.repr = b.repr := by
  unfold repr
  rw [h.source, Value.text_eq_of_identical h.value]

end Argument

namespace Failure

/-! ## Identity -/

inductive Identical : Failure → Failure → Prop where
  | general (text : String) : Identical (.general text) (.general text)
  | invalidSignature (defect : Signature.Defect) :
      Identical (.invalidSignature defect) (.invalidSignature defect)
  | constraintCompilation (param : ParamRef) (constraint problem : String) :
      Identical (.constraintCompilation param constraint problem)
        (.constraintCompilation param constraint problem)
  /-- The columns may differ. -/
  | checkConstruction (kind : Check.Kind) {location location' : Location} (problem : String)
      (hfile : location.file = location'.file) (hline : location.line = location'.line) :
      Identical (.checkConstruction kind location problem)
        (.checkConstruction kind location' problem)
  | bindingRejection (rejection : Rejection) :
      Identical (.bindingRejection rejection) (.bindingRejection rejection)
  | checkExecution (param : ParamRef) {arg arg' : Argument} (check : Check) (operation : String)
      {value value' : Value} (harg : arg.Identical arg') (hvalue : value.Identical value') :
      Identical (.checkExecution param arg check operation value)
        (.checkExecution param arg' check operation value')
  | typeViolation (param : ParamRef) {arg arg' : Argument} (check : Check)
      (declared : DeclaredType) (received : ValueType) (harg : arg.Identical arg') :
      Identical (.typeViolation param arg check declared received)
        (.typeViolation param arg' check declared received)
  | valueViolation (param : ParamRef) {arg arg' : Argument} (check : Check)
      (harg : arg.Identical arg') :
      Identical (.valueViolation param arg check) (.valueViolation param arg' check)
  | elementViolation (param : ParamRef) {arg arg' : Argument} (check : Check) (index : Nat)
      {element element' : Value} (harg : arg.Identical arg')
      (helement : element.Identical element') :
      Identical (.elementViolation param arg check index element)
        (.elementViolation param arg' check index element')

/-! ## Attributes -/

/-- An attribute's name and text, as they are listed. -/
def attributeText (a : String × String) : String := a.1 ++ "=" ++ a.2

/-- What follows an attribute: the later ones, and the parenthesis at the end. -/
def after (attributes : List (String × String)) : List Char :=
  afterItem (attributes.map attributeText) [')']

theorem endsItem_after (attributes : List (String × String)) : EndsItem (after attributes) :=
  (Text.endsList_cons (by decide) []).endsItem_afterItem _

theorem after_cons (name text : String) (rest : List (String × String)) :
    after ((name, text) :: rest) =
      ',' :: ' ' :: (name.toList ++ '=' :: (text.toList ++ after rest)) := by
  rw [after, List.map_cons, afterItem, listed_cons_append, attributeText]
  simp [after]

variable {α : Type} {text : α → String} {same : α → α → Prop} {stop : List Char → Prop}
variable {rest rest' : List (String × String)}

/-- The first attribute is told from the later ones. -/
theorem eq_of_after_eq {a b : α} {name : String} (h : Delimits text same stop a)
    (hs : stop (after rest)) (ht : stop (after rest'))
    (he : after ((name, text a) :: rest) = after ((name, text b) :: rest')) :
    same a b ∧ after rest = after rest' := by
  rw [after_cons, after_cons] at he
  have hname := (List.cons.inj (List.cons.inj he).2).2
  exact h hs ht (List.cons.inj (List.append_cancel_left hname)).2

theorem after_attributes (e : Failure) :
    after e.attributes =
      ',' :: ' ' :: ((listed (e.attributes.map attributeText)).toList ++ [')']) := by
  cases e <;> rfl

namespace Kind

theorem prefixFree_name : PrefixFree (all.map (·.name.toList)) := by
  simp only [all, List.map_cons, List.map_nil, name, -String.reduceToList]
  repeat rw [String.toList_ofList]
  decide

theorem name_injective {k k' : Kind} (h : k.name = k'.name) : k = k' :=
  Option.some.inj (by rw [← ofName?_name, h, ofName?_name])

end Kind

theorem kind_and_after_eq {e e' : Failure} (h : e.repr = e'.repr) :
    e.kind = e'.kind ∧ after e.attributes = after e'.attributes := by
  have whole (e : Failure) : e.repr.toList = e.kind.name.toList ++
      '(' :: ((listed (e.attributes.map attributeText)).toList ++ [')']) := by
    unfold repr
    simp only [String.toList_append, List.append_assoc]
    rfl
  have hlists := congrArg String.toList h
  rw [whole, whole] at hlists
  obtain ⟨hname, hrest⟩ := Kind.prefixFree_name.eq_of_append_eq (List.mem_map_of_mem e.kind.mem_all)
    (List.mem_map_of_mem e'.kind.mem_all) hlists
  refine ⟨Kind.name_injective (String.toList_inj.1 hname), ?_⟩
  rw [after_attributes, after_attributes, (List.cons.inj hrest).2]

/-! ## Failures -/

theorem attribute_eq {a b : α} {name : String} (h : Delimits text same EndsItem a)
    (he : after ((name, text a) :: rest) = after ((name, text b) :: rest')) :
    same a b ∧ after rest = after rest' :=
  eq_of_after_eq h (endsItem_after rest) (endsItem_after rest') he

theorem closed_attribute {name text : String} (hn : Closed name.toList) (ht : Closed text.toList)
    (hrest : Closed (after rest)) : Closed (after ((name, text) :: rest)) := by
  rw [after_cons]
  exact (by decide : Closed [',', ' ']).append
    (hn.append ((by decide : Closed ['=']).append (ht.append hrest)))

/-- A parameter, an argument and a check, the check's attribute under this name. -/
def concern (name : String) (param : ParamRef) (arg : Argument) (check : Check)
    (rest : List (String × String)) : List (String × String) :=
  ("param", param.repr) :: ("arg_that_caused_failure", arg.repr) :: (name, check.text) :: rest

theorem concern_eq {name : String} {param param' : ParamRef} {arg arg' : Argument}
    {check check' : Check} (hn : Closed name.toList) (hs : Closed (after rest))
    (ht : Closed (after rest'))
    (he : after (concern name param arg check rest) =
      after (concern name param' arg' check' rest')) :
    param = param' ∧ arg.Identical arg' ∧ check = check' ∧ after rest = after rest' := by
  obtain ⟨hparam, harg⟩ := attribute_eq param.delimits_repr.of_anything he
  obtain ⟨harg, hcheck⟩ := eq_of_after_eq arg.delimits_repr
    (closed_attribute hn check.closed_text hs) (closed_attribute hn check'.closed_text ht) harg
  obtain ⟨hcheck, hrest⟩ := attribute_eq check.delimits_text.of_anything hcheck
  exact ⟨hparam, harg, hcheck, hrest⟩

theorem concern_congr {name : String} {param : ParamRef} {arg arg' : Argument} {check : Check}
    (harg : arg.Identical arg') (hrest : rest = rest') :
    concern name param arg check rest = concern name param arg' check rest' := by
  rw [concern, concern, harg.repr_eq, hrest]

theorem closed_toString (n : Nat) : Closed (toString n).toList :=
  closed_of_isPlain fun c hc => by
    have hd := isDigit_of_mem_nat hc
    refine ⟨?_, ?_, ?_⟩ <;> rintro rfl <;> exact absurd hd (by decide)

theorem identical_of_repr_eq {e e' : Failure} (h : e.repr = e'.repr) : Identical e e' := by
  obtain ⟨hkind, hafter⟩ := kind_and_after_eq h
  have closed_end : Closed (after []) := by decide
  cases e with
  | general text =>
    cases e' <;> cases hkind
    rename_i text'
    change after [("message", quoted text)] = after [("message", quoted text')] at hafter
    obtain ⟨rfl, -⟩ := attribute_eq (delimits_quoted text).of_anything hafter
    exact .general text
  | invalidSignature defect =>
    cases e' <;> cases hkind
    rename_i defect'
    change after [("problem", quoted defect.message)] =
      after [("problem", quoted defect'.message)] at hafter
    obtain ⟨hmessage, -⟩ := attribute_eq (delimits_quoted defect.message).of_anything hafter
    exact Signature.Defect.message_injective hmessage ▸ .invalidSignature defect
  | constraintCompilation param constraint problem =>
    cases e' <;> cases hkind
    rename_i param' constraint' problem'
    change after [("param", param.repr), ("annotation", quoted constraint),
        ("problem", quoted problem)] =
      after [("param", param'.repr), ("annotation", quoted constraint'),
        ("problem", quoted problem')] at hafter
    obtain ⟨rfl, hrest⟩ := attribute_eq param.delimits_repr.of_anything hafter
    obtain ⟨rfl, hlast⟩ := attribute_eq (delimits_quoted constraint).of_anything hrest
    obtain ⟨rfl, -⟩ := attribute_eq (delimits_quoted problem).of_anything hlast
    exact .constraintCompilation param constraint problem
  | checkConstruction kind location problem =>
    cases e' <;> cases hkind
    rename_i kind' location' problem'
    change after [("check_type", kind.name), ("calling_location", location.repr),
        ("problem", quoted problem)] =
      after [("check_type", kind'.name), ("calling_location", location'.repr),
        ("problem", quoted problem')] at hafter
    obtain ⟨rfl, hrest⟩ := attribute_eq kind.delimits_name.of_anything hafter
    obtain ⟨⟨hfile, hline⟩, hlast⟩ := attribute_eq location.delimits_repr.of_anything hrest
    obtain ⟨rfl, -⟩ := attribute_eq (delimits_quoted problem).of_anything hlast
    exact .checkConstruction kind problem hfile hline
  | bindingRejection rejection =>
    cases e' <;> cases hkind
    rename_i rejection'
    change after [("exception_args", "(" ++ quoted rejection.message ++ ",)")] =
      after [("exception_args", "(" ++ quoted rejection'.message ++ ",)")] at hafter
    obtain ⟨hmessage, -⟩ := attribute_eq
      ((delimits_quoted rejection.message).between "(" ",)" fun _ _ => trivial) hafter
    exact Rejection.message_injective hmessage ▸ .bindingRejection rejection
  | checkExecution param arg check operation value =>
    cases e' <;> cases hkind
    rename_i param' arg' check' operation' value'
    have closed_rest (o : String) (v : Value) : Closed (after
        [("operation_that_failed", quoted o), ("value_that_caused_failure", v.text)]) :=
      closed_attribute (by decide) (closed_quoted o)
        (closed_attribute (by decide) v.closed_text closed_end)
    obtain ⟨rfl, harg, rfl, hrest⟩ := concern_eq (by decide : Closed "during_check".toList)
      (closed_rest operation value) (closed_rest operation' value') hafter
    obtain ⟨rfl, hlast⟩ := attribute_eq (delimits_quoted operation).of_anything hrest
    obtain ⟨hvalue, -⟩ := attribute_eq value.delimits_text hlast
    exact .checkExecution param check operation harg hvalue
  | typeViolation param arg check declared received =>
    cases e' <;> cases hkind
    rename_i param' arg' check' declared' received'
    have closed_rest (d : DeclaredType) (t : ValueType) : Closed (after
        [("type_declared", d.text), ("type_received", t.name)]) :=
      closed_attribute (by decide) d.closed_text
        (closed_attribute (by decide) t.closed_name closed_end)
    obtain ⟨rfl, harg, rfl, hrest⟩ := concern_eq (by decide : Closed "check_that_failed".toList)
      (closed_rest declared received) (closed_rest declared' received') hafter
    obtain ⟨rfl, hlast⟩ := attribute_eq declared.delimits_text.of_anything hrest
    obtain ⟨rfl, -⟩ := attribute_eq received.delimits_name.of_anything hlast
    exact .typeViolation param check declared received harg
  | valueViolation param arg check =>
    cases e' <;> cases hkind
    rename_i param' arg' check'
    obtain ⟨rfl, harg, rfl, -⟩ := concern_eq (by decide : Closed "check_that_failed".toList)
      closed_end closed_end hafter
    exact .valueViolation param check harg
  | elementViolation param arg check index element =>
    cases e' <;> cases hkind
    rename_i param' arg' check' index' element'
    have closed_rest (i : Nat) (v : Value) : Closed (after
        [("idx_within_sequence", toString i), ("value_within_sequence", v.text)]) :=
      closed_attribute (by decide) (closed_toString i)
        (closed_attribute (by decide) v.closed_text closed_end)
    obtain ⟨rfl, harg, rfl, hrest⟩ := concern_eq (by decide : Closed "check_that_failed".toList)
      (closed_rest index element) (closed_rest index' element') hafter
    obtain ⟨rfl, hlast⟩ := attribute_eq (delimits_index index) hrest
    obtain ⟨helement, -⟩ := attribute_eq element.delimits_text hlast
    exact .elementViolation param check index harg helement

theorem repr_congr {e e' : Failure} (hk : e.kind = e'.kind) (ha : e.attributes = e'.attributes) :
    e.repr = e'.repr := by
  unfold repr
  rw [hk, ha]

theorem repr_eq_of_identical {e e' : Failure} (h : Identical e e') : e.repr = e'.repr := by
  cases h with
  | general | invalidSignature | constraintCompilation | bindingRejection => rfl
  | checkConstruction kind problem hfile hline =>
    exact repr_congr rfl (congrArg (fun place => [("check_type", kind.name),
      ("calling_location", place), ("problem", quoted problem)]) (Location.repr_eq hfile hline))
  | checkExecution param check operation harg hvalue =>
    refine repr_congr rfl (concern_congr harg ?_)
    rw [Value.text_eq_of_identical hvalue]
  | typeViolation param check declared received harg =>
    exact repr_congr rfl (concern_congr harg rfl)
  | valueViolation param check harg => exact repr_congr rfl (concern_congr harg rfl)
  | elementViolation param check index harg helement =>
    refine repr_congr rfl (concern_congr harg ?_)
    rw [Value.text_eq_of_identical helement]

/-- Two failures have one `repr` exactly when they are the same failure, up to the bits of the NaNs
in their values and the column of a place. -/
theorem repr_eq_iff {e e' : Failure} : e.repr = e'.repr ↔ Identical e e' :=
  ⟨identical_of_repr_eq, repr_eq_of_identical⟩

end Failure
end CallContract
