import CallContract.Signature
import Mathlib.Data.List.Induction
import Mathlib.Data.List.Nodup

/-!
# Well-formed parameter lists

A list without a defect is read here pair by pair: all names differ, and of two parameters the
earlier one is of a kind that may stand before the other's (`Follows`). The rules compare
neighbours only; that they say the same of all pairs is by induction from the end of the list, with
`Follows` transitive.

**Results.**
* `names_nodup`: no two parameters have one name.
* `params_follow`: kinds come in order, and each variadic kind at most once.
* `isPositional_iff_lt`: the positional parameters are the first ones.
* `index_of_varPositional`: the variadic one stands right behind them.
-/
namespace CallContract

theorem ParamKind.rank_injective {k l : ParamKind} (h : k.rank = l.rank) : k = l := by
  cases k <;> cases l <;> first | rfl | cases h

theorem ParamKind.isVariadic_iff {k : ParamKind} :
    k.isVariadic = true ↔ k = .varPositional ∨ k = .varKeyword := by
  cases k <;> decide

theorem ParamKind.eq_positionalOrKeyword {k : ParamKind} (hp : k.isPositional = true)
    (hn : k.isNamed = true) : k = .positionalOrKeyword := by
  revert hp hn
  cases k <;> decide

theorem ParamKind.eq_positionalOnly {k : ParamKind} (hv : k.isVariadic = false)
    (hn : ¬ k.isNamed = true) : k = .positionalOnly := by
  revert hv hn
  cases k <;> decide

namespace Signature

/-- A parameter of the second kind may come after one of the first, at any distance. -/
def Follows (p q : Param) : Prop :=
  p.kind.rank ≤ q.kind.rank ∧ (p.kind.isVariadic = true → p.kind ≠ q.kind)

theorem Follows.trans {p q r : Param} (hpq : Follows p q) (hqr : Follows q r) : Follows p r := by
  refine ⟨Nat.le_trans hpq.1 hqr.1, fun hv he => hpq.2 hv ?_⟩
  have := hqr.1
  rw [← he] at this
  exact ParamKind.rank_injective (Nat.le_antisymm hpq.1 this)

theorem orderDefect_eq_none {p q : Param} : orderDefect p.kind q = none ↔ Follows p q := by
  unfold orderDefect Follows
  split
  · simp; omega
  · rename_i hlt
    rw [Nat.not_lt] at hlt
    split
    · rename_i h
      simp [h.1.symm, h.2]
    · rename_i h
      simp only [hlt, true_and, true_iff]
      intro hv he
      exact h ⟨he.symm, he ▸ hv⟩

/-! ## Defects at the end of a list -/

theorem firstDefect_concat_eq_none {before ps : List Param} {p : Param} :
    firstDefect before (ps ++ [p]) = none ↔
      firstDefect before ps = none ∧ defectAfter (before ++ ps) p = none := by
  rw [firstDefect_append, Option.or_eq_none_iff, firstDefect]
  cases defectAfter (before ++ ps) p <;> simp [firstDefect]

theorem name_ne_of_defectAfter {before : List Param} {p : Param}
    (h : defectAfter before p = none) {q : Param} (hq : q ∈ before) : q.name ≠ p.name := by
  intro he
  unfold defectAfter at h
  split at h
  · cases h
  · split at h
    · cases h
    · rename_i hn
      simp only [List.any_eq_true, beq_iff_eq, not_exists, not_and] at hn
      exact hn q hq he

theorem orderDefect_of_defectAfter {before : List Param} {p : Param}
    (h : defectAfter before p = none) :
    before.getLast?.bind (orderDefect ·.kind p) = none := by
  unfold defectAfter at h
  split at h
  · cases h
  · split at h
    · cases h
    · split at h
      · cases h
      · assumption

/-! ## All pairs -/

theorem pairwise_name_ne {ps : List Param} (h : firstDefect [] ps = none) :
    ps.Pairwise (·.name ≠ ·.name) := by
  induction ps using List.reverseRecOn with
  | nil => exact .nil
  | append_singleton ps p ih =>
    obtain ⟨hps, hp⟩ := firstDefect_concat_eq_none.1 h
    rw [List.pairwise_append]
    refine ⟨ih hps, List.pairwise_singleton .., fun q hq r hr => ?_⟩
    rw [List.mem_singleton.1 hr]
    exact name_ne_of_defectAfter hp hq

/-- The last of a list in order comes after all the others. -/
theorem eq_or_follows_last {ps : List Param} (hps : ps.Pairwise Follows) {q last : Param}
    (hl : ps.getLast? = some last) (hq : q ∈ ps) : q = last ∨ Follows q last := by
  obtain ⟨front, rfl⟩ := List.getLast?_eq_some_iff.1 hl
  rcases List.mem_append.1 hq with hq | hq
  · exact .inr ((List.pairwise_append.1 hps).2.2 q hq last (List.mem_singleton_self last))
  · exact .inl (List.mem_singleton.1 hq)

/-- The rule speaks of the last parameter alone; the others reach the new one through it. -/
theorem follows_of_orderDefect {before : List Param} (hb : before.Pairwise Follows) {p q : Param}
    (h : before.getLast?.bind (orderDefect ·.kind p) = none) (hq : q ∈ before) : Follows q p := by
  cases hl : before.getLast? with
  | none =>
    rw [List.getLast?_eq_none_iff.1 hl] at hq
    cases hq
  | some last =>
    rw [hl, Option.bind_some] at h
    have hlast : Follows last p := orderDefect_eq_none.1 h
    rcases eq_or_follows_last hb hl hq with rfl | hq
    · exact hlast
    · exact hq.trans hlast

theorem pairwise_follows {ps : List Param} (h : firstDefect [] ps = none) :
    ps.Pairwise Follows := by
  induction ps using List.reverseRecOn with
  | nil => exact .nil
  | append_singleton ps p ih =>
    obtain ⟨hps, hp⟩ := firstDefect_concat_eq_none.1 h
    rw [List.pairwise_append]
    refine ⟨ih hps, List.pairwise_singleton .., fun q hq r hr => ?_⟩
    rw [List.mem_singleton.1 hr]
    exact follows_of_orderDefect (ih hps) (orderDefect_of_defectAfter hp) hq

/-! ## Parameters of a signature -/

theorem names_nodup (s : Signature) : (s.params.map (·.name)).Nodup :=
  List.pairwise_map.2 (pairwise_name_ne s.sound)

theorem params_follow (s : Signature) : s.params.Pairwise Follows := pairwise_follows s.sound

theorem follows_of_lt (s : Signature) {i j : Nat} {p q : Param} (hi : s.params[i]? = some p)
    (hj : s.params[j]? = some q) (h : i < j) : Follows p q := by
  obtain ⟨hi', rfl⟩ := List.getElem?_eq_some_iff.1 hi
  obtain ⟨hj', rfl⟩ := List.getElem?_eq_some_iff.1 hj
  exact List.pairwise_iff_getElem.1 s.params_follow i j hi' hj' h

/-- A name belongs to one parameter. -/
theorem index_unique_of_name (s : Signature) {i j : Nat} {p q : Param}
    (hi : s.params[i]? = some p) (hj : s.params[j]? = some q) (h : p.name = q.name) : i = j := by
  obtain ⟨hi', rfl⟩ := List.getElem?_eq_some_iff.1 hi
  obtain ⟨hj', rfl⟩ := List.getElem?_eq_some_iff.1 hj
  have hn : (s.params.map (·.name))[i]? = (s.params.map (·.name))[j]? := by
    simpa [hi', hj'] using h
  exact (List.getElem?_inj (by simpa using hi') s.names_nodup).1 hn

/-- A variadic kind belongs to one parameter. -/
theorem index_unique_of_isVariadic (s : Signature) {i j : Nat} {p q : Param}
    (hi : s.params[i]? = some p) (hj : s.params[j]? = some q) (h : p.kind = q.kind)
    (hv : p.kind.isVariadic = true) : i = j := by
  rcases Nat.lt_trichotomy i j with hlt | heq | hlt
  · exact absurd h ((s.follows_of_lt hi hj hlt).2 hv)
  · exact heq
  · exact absurd h.symm ((s.follows_of_lt hj hi hlt).2 (h ▸ hv))

/-! ## Positional parameters -/

theorem Follows.isPositional {p q : Param} (h : Follows p q) (hq : q.kind.isPositional = true) :
    p.kind.isPositional = true := by
  have := h.1
  revert this hq
  cases p.kind <;> cases q.kind <;> decide

/-- How many parameters can be filled by position. -/
def positionalCount (s : Signature) : Nat := s.params.countP (·.kind.isPositional)

theorem isPositional_iff_lt_countP {ps : List Param} (hps : ps.Pairwise Follows) {i : Nat}
    {p : Param} (hp : ps[i]? = some p) :
    p.kind.isPositional = true ↔ i < ps.countP (·.kind.isPositional) := by
  induction ps generalizing i with
  | nil => cases hp
  | cons q ps ih =>
    obtain ⟨hq, hps⟩ := List.pairwise_cons.1 hps
    by_cases hk : q.kind.isPositional = true
    · rw [List.countP_cons, if_pos hk]
      cases i with
      | zero => cases hp; simp [hk]
      | succ i => rw [ih hps hp]; omega
    · -- no positional parameter comes after one that is not
      have hnone : ∀ r ∈ q :: ps, ¬ r.kind.isPositional = true := by
        intro r hr
        rcases List.mem_cons.1 hr with rfl | hr
        · exact hk
        · exact fun h => hk ((hq r hr).isPositional h)
      rw [List.countP_eq_zero.2 hnone]
      simpa using hnone p (List.mem_of_getElem? hp)

/-- The positional parameters are those at the first indices. -/
theorem isPositional_iff_lt (s : Signature) {i : Nat} {p : Param} (hp : s.params[i]? = some p) :
    p.kind.isPositional = true ↔ i < s.positionalCount :=
  isPositional_iff_lt_countP s.params_follow hp

/-- The parameter that collects positional arguments stands right behind those that take one. -/
theorem index_of_varPositional (s : Signature) {i : Nat} {p : Param} (hp : s.params[i]? = some p)
    (hk : p.kind = .varPositional) : i = s.positionalCount := by
  have hge : ¬ i < s.positionalCount := by
    rw [← s.isPositional_iff_lt hp, hk]
    decide
  by_contra hne
  have hlt : s.positionalCount < i := by omega
  obtain ⟨q, hq⟩ : ∃ q, s.params[s.positionalCount]? = some q := by
    have := (List.getElem?_eq_some_iff.1 hp).1
    exact ⟨_, List.getElem?_eq_getElem (by omega)⟩
  have hnot : ¬ q.kind.isPositional = true := by
    rw [s.isPositional_iff_lt hq]
    omega
  obtain ⟨hrank, hvar⟩ := s.follows_of_lt hq hp hlt
  rw [hk] at hrank hvar
  revert hnot hrank hvar
  cases q.kind <;> decide

end Signature
end CallContract
