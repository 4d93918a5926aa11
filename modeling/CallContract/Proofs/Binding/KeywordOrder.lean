import CallContract.Proofs.Binding.Conservation
import Mathlib.Data.List.Perm.Basic

/-!
# The order of keywords

Two calls whose keywords are the same, in another order, are bound alike, as long as no keyword is
repeated: what a parameter takes by its name does not depend on where the keyword stands. The order
of the call is left in two places. One is the values that the variadic keyword parameter collects;
they are the last ones bound. The other is the keyword named where one is surplus and no parameter
collects it.

**Results.**
* `keyword?_eq`: a keyword has the same value in both calls.
* `defects_eq`, `table_eq`: what is wrong with the calls and what they bind, but for surplus
  keywords.
* `Rearranges.binds_alike`: the outcomes of binding, case by case.
-/
namespace CallContract

/-- The second call is the first one with its keywords in some order. -/
structure Call.Rearranges (c c' : Call) : Prop where
  args : c'.args = c.args
  kwargs : c'.kwargs.Perm c.kwargs

namespace Signature

/-- The bound value is a surplus keyword of the call, held by the parameter that collects them. -/
def IsCollected (s : Signature) (c : Call) (b : Bound) : Prop :=
  ∃ p name v, s.params[b.param]? = some p ∧ p.kind = .varKeyword ∧ (name, v) ∈ s.unaccepted c ∧
    b.argument = ⟨.keyword name, v⟩

/-- Outcomes of binding that differ by the order of surplus keywords at most. -/
inductive BindAlike (s : Signature) (c : Call) :
    Except Rejection (List Bound) → Except Rejection (List Bound) → Prop where
  | bound (shared : List Bound) {collected collected' : List Bound}
      (h : collected'.Perm collected) (hc : ∀ b ∈ collected, s.IsCollected c b) :
      BindAlike s c (.ok (shared ++ collected)) (.ok (shared ++ collected'))
  | rejected (e : Rejection) : BindAlike s c (.error e) (.error e)
  /-- Another surplus keyword may be named. -/
  | unexpected {name name' : String} {v v' : Value} (h : (name, v) ∈ s.unaccepted c)
      (h' : (name', v') ∈ s.unaccepted c) :
      BindAlike s c (.error (.unexpectedKeyword name)) (.error (.unexpectedKeyword name'))

/-! ## Surplus keywords -/

theorem isCollected_of_mem {s : Signature} {c : Call} {b : Bound}
    (hb : b ∈ s.params.zipIdx.flatMap (s.heldAsSurplus c)) : s.IsCollected c b := by
  obtain ⟨⟨p, i⟩, hx, hb⟩ := List.mem_flatMap.1 hb
  rw [heldAsSurplus] at hb
  split at hb
  · rename_i hk
    obtain ⟨⟨name, v⟩, hm, rfl⟩ := List.mem_map.1 hb
    exact ⟨p, name, v, List.mem_zipIdx_iff_getElem?.1 hx, hk, hm, rfl⟩
  · cases hb

theorem exists_unaccepted_of_mem {s : Signature} {c : Call} {e : Rejection}
    (he : e ∈ s.surplusDefects c) :
    ∃ name v, (name, v) ∈ s.unaccepted c ∧ e = .unexpectedKeyword name := by
  rw [surplusDefects] at he
  split at he
  · cases he
  · obtain ⟨⟨name, v⟩, hm, rfl⟩ := List.mem_map.1 he
    exact ⟨name, v, hm, rfl⟩

end Signature

namespace Call.Rearranges

variable {c c' : Call} (h : c.Rearranges c')
include h

/-! ## The keywords of the two calls -/

theorem keywords_perm : c'.keywords.Perm c.keywords := h.kwargs.map _

theorem mem_keywords {name : String} : name ∈ c'.keywords ↔ name ∈ c.keywords :=
  h.keywords_perm.mem_iff

theorem keywords_nodup (hn : c.keywords.Nodup) : c'.keywords.Nodup := h.keywords_perm.nodup_iff.2 hn

theorem keyword?_eq (hn : c.keywords.Nodup) (name : String) :
    c'.keyword? name = c.keyword? name := by
  ext v
  constructor
  · exact fun hv =>
      Signature.keyword?_eq_some hn (h.kwargs.mem_iff.1 (Call.mem_kwargs_of_keyword? hv))
  · exact fun hv => Signature.keyword?_eq_some (h.keywords_nodup hn)
      (h.kwargs.mem_iff.2 (Call.mem_kwargs_of_keyword? hv))

theorem unaccepted_perm (s : Signature) : (s.unaccepted c').Perm (s.unaccepted c) :=
  h.kwargs.filter _

/-! ## What is wrong with the two calls -/

theorem multipleValues?_eq (filled : Nat) :
    Signature.multipleValues? filled c' = Signature.multipleValues? filled c := by
  funext x
  simp only [Signature.multipleValues?, h.mem_keywords]

theorem openDefect?_eq (collects : Bool) :
    Signature.openDefect? collects c' = Signature.openDefect? collects c := by
  funext p
  simp only [Signature.openDefect?, h.mem_keywords]

theorem surplusDefects_perm (s : Signature) :
    (s.surplusDefects c').Perm (s.surplusDefects c) := by
  unfold Signature.surplusDefects
  split
  · exact .refl _
  · exact (h.unaccepted_perm s).map _

/-- Only the surplus keywords may come in another order. -/
theorem defects_eq (hn : c.keywords.Nodup) (s : Signature) :
    ∃ shared, s.defects c = shared ++ s.surplusDefects c ∧
      s.defects c' = shared ++ s.surplusDefects c' := by
  refine ⟨_, rfl, ?_⟩
  have hrepeated : c.repeatedKeywords = [] := Signature.repeatedKeywords_eq_nil.2 hn
  have hrepeated' : c'.repeatedKeywords = [] :=
    Signature.repeatedKeywords_eq_nil.2 (h.keywords_nodup hn)
  rw [Signature.defects, hrepeated, hrepeated', Signature.filledCount, Signature.filledCount, h.args,
    h.multipleValues?_eq, h.openDefect?_eq]

/-! ## What the two calls bind -/

theorem heldByName_eq (hn : c.keywords.Nodup) :
    Signature.heldByName c' = Signature.heldByName c := by
  funext x
  simp only [Signature.heldByName, Signature.takenOpen?, h.keyword?_eq hn]

/-- Only the values collected, which come last, may come in another order. -/
theorem table_eq (hn : c.keywords.Nodup) (s : Signature) :
    ∃ shared, s.table c = shared ++ s.params.zipIdx.flatMap (s.heldAsSurplus c) ∧
      s.table c' = shared ++ s.params.zipIdx.flatMap (s.heldAsSurplus c') := by
  refine ⟨_, (s.steps_eq_table c).symm, ?_⟩
  rw [← s.steps_eq_table c', h.args, h.heldByName_eq hn]

theorem heldAsSurplus_perm (s : Signature) (x : Param × Nat) :
    (s.heldAsSurplus c' x).Perm (s.heldAsSurplus c x) := by
  obtain ⟨p, i⟩ := x
  by_cases hk : p.kind = .varKeyword
  · simpa only [Signature.heldAsSurplus, hk, if_true] using (h.unaccepted_perm s).map _
  · simp only [Signature.heldAsSurplus, hk, if_false, List.Perm.refl]

/-! ## Binding -/

/-- Either both calls have surplus keywords that nothing collects, or neither has any. -/
theorem surplusDefects_cases (s : Signature) :
    (s.surplusDefects c = [] ∧ s.surplusDefects c' = []) ∨
    ∃ name v es name' v' es', (name, v) ∈ s.unaccepted c ∧ (name', v') ∈ s.unaccepted c ∧
      s.surplusDefects c = .unexpectedKeyword name :: es ∧
      s.surplusDefects c' = .unexpectedKeyword name' :: es' := by
  have hperm := h.surplusDefects_perm s
  cases hs : s.surplusDefects c with
  | nil => exact .inl ⟨rfl, List.perm_nil.1 (hs ▸ hperm)⟩
  | cons e es =>
    have hne : s.surplusDefects c' ≠ [] := by
      intro hnil
      rw [hs, hnil] at hperm
      cases List.nil_perm.1 hperm
    obtain ⟨e', es', hs'⟩ := List.ne_nil_iff_exists_cons.1 hne
    have he : e ∈ s.surplusDefects c := by simp [hs]
    have he' : e' ∈ s.surplusDefects c := hperm.mem_iff.1 (by simp [hs'])
    obtain ⟨name, v, hm, rfl⟩ := Signature.exists_unaccepted_of_mem he
    obtain ⟨name', v', hm', rfl⟩ := Signature.exists_unaccepted_of_mem he'
    exact .inr ⟨name, v, es, name', v', es', hm, hm', rfl, hs'⟩

/-- Without repeated keywords the two calls are bound alike. -/
theorem binds_alike (hn : c.keywords.Nodup) (s : Signature) :
    s.BindAlike c (s.bind c) (s.bind c') := by
  obtain ⟨defects, hd, hd'⟩ := h.defects_eq hn s
  obtain ⟨shared, ht, ht'⟩ := h.table_eq hn s
  rw [Signature.bind_eq, Signature.bind_eq, hd, hd', ht, ht']
  cases defects with
  | cons e _ => exact .rejected e
  | nil =>
    rcases h.surplusDefects_cases s with ⟨hs, hs'⟩ | ⟨name, v, _, name', v', _, hm, hm', hs, hs'⟩
    · rw [hs, hs']
      exact .bound shared (.flatMap_left _ fun x _ => h.heldAsSurplus_perm s x)
        fun b hb => Signature.isCollected_of_mem hb
    · rw [hs, hs']
      exact .unexpected hm hm'

end Call.Rearranges
end CallContract
