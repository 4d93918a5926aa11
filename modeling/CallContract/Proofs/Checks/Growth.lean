import CallContract.Proofs.Constraints.Meaning
import CallContract.Proofs.Values.StrictOrder

/-!
# Tests for growth

What a test for growth comes to on any value. It needs a length and, from two elements on, access
by position. Then it goes by the first pair of neighbours that does not rise (`FirstStop`): a pair
with an order makes it fail, and a pair without one makes it inapplicable to the whole value,
whatever comes behind.

**All pairs.** Where the test passes every element exceeds every earlier one, and no two are equal,
in either direction of the comparison: order is transitive over all values, and it excludes
equality.

**Results.**
* `increasing?_of_rises`, `increasing?_of_firstStop`, `rises_or_firstStop`: the walk along the
  neighbours.
* `evaluate_eq_iff_growthOutcome`: what the test comes to, case by case.
* `monotonicIncreasing_outcome`: this, and what a pass says of all pairs.
-/
namespace CallContract

/-- The elements that a value gives access to by position: characters or items. -/
inductive Value.Indexed : Value → List Value → Prop where
  | str (s : String) : Indexed (.str s) (s.toList.map .ofChar)
  | list (items : List Value) : Indexed (.list items) items
  | tuple (items : List Value) : Indexed (.tuple items) items

theorem Value.Indexed.elements?_eq {v : Value} {items : List Value} (h : v.Indexed items) :
    v.elements? = some items ∧ v.isIndexable = true := by
  cases h <;> exact ⟨rfl, rfl⟩

namespace Check

/-! ## Neighbours -/

/-- Each element but the first exceeds the one before it. -/
def RisesThroughout (items : List Value) : Prop :=
  ∀ i x y, items[i]? = some x → items[i + 1]? = some y → Rises x y

/-- The first two neighbours of which the second does not exceed the first. -/
structure FirstStop (items : List Value) (i : Nat) (x y : Value) : Prop where
  before : items[i]? = some x
  after : items[i + 1]? = some y
  stops : ¬ Rises x y
  first : ∀ j < i, ∀ u w, items[j]? = some u → items[j + 1]? = some w → Rises u w

theorem risesThroughout_iff_isChain {items : List Value} :
    RisesThroughout items ↔ items.IsChain Rises := by
  rw [List.isChain_iff_getElem]
  refine ⟨fun h i hi => h i _ _ ?_ ?_, fun h i x y hx hy => ?_⟩
  · exact List.getElem?_eq_getElem _
  · exact List.getElem?_eq_getElem _
  · obtain ⟨_, rfl⟩ := List.getElem?_eq_some_iff.1 hx
    obtain ⟨hi, rfl⟩ := List.getElem?_eq_some_iff.1 hy
    exact h i hi

theorem increasing?_of_rises {items : List Value} (h : RisesThroughout items) :
    increasing? items = some true :=
  increasing?_eq_some_true_iff_isChain.2 (risesThroughout_iff_isChain.1 h)

theorem increasing?_cons_of_rises {v w : Value} (h : Rises v w) (rest : List Value) :
    increasing? (v :: w :: rest) = increasing? (w :: rest) := by
  rw [increasing?, h]

theorem FirstStop.tail {v : Value} {items : List Value} {i : Nat} {x y : Value}
    (h : FirstStop (v :: items) (i + 1) x y) : FirstStop items i x y where
  before := by simpa using h.before
  after := by simpa using h.after
  stops := h.stops
  first j hj u w hu hw := h.first (j + 1) (by omega) u w (by simpa using hu) (by simpa using hw)

/-- Behind a pair that rises, the first stop is the one of the rest. -/
theorem FirstStop.cons {v w : Value} {rest : List Value} {i : Nat} {x y : Value}
    (hvw : Rises v w) (h : FirstStop (w :: rest) i x y) :
    FirstStop (v :: w :: rest) (i + 1) x y where
  before := by simpa using h.before
  after := by simpa using h.after
  stops := h.stops
  first j hj u z hu hz := by
    cases j with
    | zero =>
      cases hu
      cases hz
      exact hvw
    | succ j => exact h.first j (by omega) u z (by simpa using hu) (by simpa using hz)

/-- The walk ends at the first stop, with the order of the two neighbours there. -/
theorem increasing?_of_firstStop {items : List Value} {i : Nat} {x y : Value}
    (h : FirstStop items i x y) : increasing? items = y.gt? x := by
  induction i generalizing items with
  | zero =>
    obtain ⟨before, after, stops, -⟩ := h
    obtain - | ⟨v, - | ⟨w, rest⟩⟩ := items
    · cases before
    · cases after
    · cases before
      cases after
      rw [increasing?]
      split
      · rename_i hr
        exact absurd hr stops
      · rfl
  | succ i ih =>
    obtain - | ⟨v, - | ⟨w, rest⟩⟩ := items
    · cases h.before
    · cases h.after
    · have hvw : Rises v w := h.first 0 (by omega) v w rfl rfl
      rw [increasing?_cons_of_rises hvw, ih h.tail]

theorem rises_or_firstStop (items : List Value) :
    RisesThroughout items ∨ ∃ i x y, FirstStop items i x y := by
  induction items with
  | nil => exact .inl fun i x y hx => by cases hx
  | cons v rest ih =>
    cases rest with
    | nil => exact .inl fun i x y _ hy => by cases hy
    | cons w rest =>
      by_cases hvw : Rises v w
      · rcases ih with hr | ⟨i, x, y, hs⟩
        · rw [risesThroughout_iff_isChain] at hr ⊢
          exact .inl (List.isChain_cons_cons.2 ⟨hvw, hr⟩)
        · exact .inr ⟨i + 1, x, y, hs.cons hvw⟩
      · exact .inr ⟨0, v, w, rfl, rfl, hvw, fun j hj => absurd hj (Nat.not_lt_zero j)⟩

/-! ## Outcomes -/

/-- The report names the operation, and the value on which it fails. -/
def Inapplicable.Names (e : Inapplicable) (operation : String) (v : Value) : Prop :=
  e.operation.text = operation ∧ e.value = v

theorem Inapplicable.names (operation : Operation) (v : Value) :
    (Inapplicable.mk operation v).Names operation.text v :=
  ⟨rfl, rfl⟩

theorem Operation.text_injective {o p : Operation} (h : o.text = p.text) : o = p := by
  revert h
  cases o <;> cases p <;> decide

/-- An operation is known by its text. -/
theorem Inapplicable.Names.eq {e : Inapplicable} {operation : Operation} {v : Value}
    (h : e.Names operation.text v) : e = ⟨operation, v⟩ := by
  obtain ⟨op, w⟩ := e
  obtain ⟨ho, rfl⟩ := h
  cases Operation.text_injective ho
  rfl

/-- What a test for growth comes to. -/
inductive GrowthOutcome : Value → Except Inapplicable Verdict → Prop where
  | noLength {v : Value} {e : Inapplicable} (h : v.length? = none) (he : e.Names "len(x)" v) :
      GrowthOutcome v (.error e)
  | short {v : Value} {n : Nat} (h : v.length? = some n) (hn : n ≤ 1) : GrowthOutcome v (.ok .pass)
  /-- The keys of a dict have no positions. -/
  | keys {entries : List (Value × Value)} {e : Inapplicable} (hn : 2 ≤ entries.length)
      (he : e.Names "x[i+1] > x[i]" (.dict entries)) : GrowthOutcome (.dict entries) (.error e)
  | rises {v : Value} {items : List Value} (hv : v.Indexed items) (hn : 2 ≤ items.length)
      (h : RisesThroughout items) : GrowthOutcome v (.ok .pass)
  | falls {v : Value} {items : List Value} {i : Nat} {x y : Value} (hv : v.Indexed items)
      (h : FirstStop items i x y) (hg : y.gt? x = some false) : GrowthOutcome v (.ok .fail)
  | unordered {v : Value} {items : List Value} {i : Nat} {x y : Value} {e : Inapplicable}
      (hv : v.Indexed items) (h : FirstStop items i x y) (hg : y.gt? x = none)
      (he : e.Names "x[i+1] > x[i]" v) : GrowthOutcome v (.error e)

theorem FirstStop.two_le_length {items : List Value} {i : Nat} {x y : Value}
    (h : FirstStop items i x y) : 2 ≤ items.length := by
  have := (List.getElem?_eq_some_iff.1 h.after).1
  omega

theorem evaluate_of_indexed {v : Value} {items : List Value} (hv : v.Indexed items)
    (hn : 2 ≤ items.length) :
    monotonicIncreasing.evaluate v =
      match increasing? items with
      | some passed => .ok (ofBool passed)
      | none => .error ⟨.stepOrder, v⟩ := by
  obtain ⟨helems, hindex⟩ := hv.elements?_eq
  rw [evaluate, evaluateIncreasing, Value.length?_eq, helems, Option.map_some]
  simp only [hindex, if_true]
  exact if_neg (by omega)

theorem evaluate_of_growthOutcome {v : Value} {outcome : Except Inapplicable Verdict}
    (h : GrowthOutcome v outcome) : monotonicIncreasing.evaluate v = outcome := by
  cases h with
  | noLength h he =>
    have he : _ = Inapplicable.mk .length v := he.eq
    rw [he, evaluate, evaluateIncreasing, h]
  | short h hn =>
    rw [evaluate, evaluateIncreasing, h]
    rw [Value.length?_eq, Option.map_eq_some_iff] at h
    obtain ⟨items, hi, -⟩ := h
    simp only [hi, hn, if_true]
  | keys hn he =>
    rename_i entries e
    have he : e = ⟨.stepOrder, .dict entries⟩ := he.eq
    rw [he, evaluate, evaluateIncreasing]
    simp only [Value.length?, Value.elements?, Value.isIndexable]
    exact if_neg (by omega)
  | rises hv hn h => rw [evaluate_of_indexed hv hn, increasing?_of_rises h]; rfl
  | falls hv h hg =>
    rw [evaluate_of_indexed hv h.two_le_length, increasing?_of_firstStop h, hg]
    rfl
  | unordered hv h hg he =>
    have he : _ = Inapplicable.mk .stepOrder v := he.eq
    rw [evaluate_of_indexed hv h.two_le_length, increasing?_of_firstStop h, hg, he]

theorem exists_growthOutcome_of_indexed {v : Value} {items : List Value} (hv : v.Indexed items) :
    ∃ outcome, GrowthOutcome v outcome := by
  by_cases hn : 2 ≤ items.length
  · rcases rises_or_firstStop items with h | ⟨i, x, y, h⟩
    · exact ⟨_, .rises hv hn h⟩
    · cases hg : y.gt? x with
      | none => exact ⟨_, .unordered hv h hg (Inapplicable.names .stepOrder v)⟩
      | some greater =>
        cases greater with
        | false => exact ⟨_, .falls hv h hg⟩
        | true => exact absurd hg h.stops
  · refine ⟨_, .short (n := items.length) ?_ (by omega)⟩
    rw [Value.length?_eq, hv.elements?_eq.1, Option.map_some]

theorem exists_growthOutcome (v : Value) : ∃ outcome, GrowthOutcome v outcome := by
  cases v with
  | str s => exact exists_growthOutcome_of_indexed (.str s)
  | list items => exact exists_growthOutcome_of_indexed (.list items)
  | tuple items => exact exists_growthOutcome_of_indexed (.tuple items)
  | dict entries =>
    by_cases hn : 2 ≤ entries.length
    · exact ⟨_, .keys hn (Inapplicable.names .stepOrder _)⟩
    · exact ⟨_, .short (n := entries.length) rfl (by omega)⟩
  | _ => exact ⟨_, .noLength rfl (Inapplicable.names .length _)⟩

theorem evaluate_eq_iff_growthOutcome {v : Value} {outcome : Except Inapplicable Verdict} :
    monotonicIncreasing.evaluate v = outcome ↔ GrowthOutcome v outcome := by
  refine ⟨?_, evaluate_of_growthOutcome⟩
  rintro rfl
  obtain ⟨outcome, h⟩ := exists_growthOutcome v
  rwa [evaluate_of_growthOutcome h]

/-! ## All pairs -/

theorem rises_of_evaluate_eq_pass {v : Value} (h : monotonicIncreasing.evaluate v = .ok .pass)
    {items : List Value} (hv : v.elements? = some items) {j k : Nat} {x y : Value} (hjk : j < k)
    (hx : items[j]? = some x) (hy : items[k]? = some y) : Rises x y := by
  obtain ⟨items', hv', hi⟩ := evaluateIncreasing_eq_pass.1 h
  obtain rfl : items = items' := Option.some.inj (hv.symm.trans hv')
  obtain ⟨hj, rfl⟩ := List.getElem?_eq_some_iff.1 hx
  obtain ⟨hk, rfl⟩ := List.getElem?_eq_some_iff.1 hy
  rcases hi with hshort | ⟨-, hp⟩
  · omega
  · exact List.pairwise_iff_getElem.1 hp j k hj hk hjk

/-- On every value a test for growth comes to what its elements say, in the order of the cases; and
where it passes, of any two elements the later one is greater and the two are not equal. -/
theorem monotonicIncreasing_outcome (v : Value) :
    (∀ outcome, monotonicIncreasing.evaluate v = outcome ↔ GrowthOutcome v outcome) ∧
    (monotonicIncreasing.evaluate v = .ok .pass → ∀ items, v.elements? = some items →
      ∀ (j k : Nat) (x y : Value), j < k → items[j]? = some x → items[k]? = some y →
        y.gt? x = some true ∧ ¬ x == y ∧ ¬ y == x) := by
  refine ⟨fun outcome => evaluate_eq_iff_growthOutcome, ?_⟩
  intro h items hv j k x y hjk hx hy
  have hr := rises_of_evaluate_eq_pass h hv hjk hx hy
  have hexceeds := Value.gt?_eq_some_true_iff.1 hr
  exact ⟨hr, Value.not_beq_swap_of_exceeds hexceeds, Value.not_beq_of_exceeds hexceeds⟩

/-- A truth value, an integer and a fraction grow from the first to the last. A text among integers
stops the test on the whole list, before the fall behind it. -/
theorem mixed_numbers_grow :
    let v : Value := .tuple [.bool true, .int 2, .float ⟨0x4004000000000000⟩]
    let w : Value := .list [.int 1, .int 2, .str "a", .int 0, .int 0]
    monotonicIncreasing.evaluate v = .ok .pass ∧
      (Value.float ⟨0x4004000000000000⟩).gt? (.bool true) = some true ∧
      ¬ Value.bool true == .float ⟨0x4004000000000000⟩ ∧
      ¬ Value.float ⟨0x4004000000000000⟩ == .bool true ∧
      ∃ e, monotonicIncreasing.evaluate w = .error e ∧ e.Names "x[i+1] > x[i]" w := by
  intro v w
  have hstep : Rises (.bool true) (.int 2) ∧ Rises (.int 2) (.float ⟨0x4004000000000000⟩) := by
    unfold Rises
    decide +kernel
  have hv : monotonicIncreasing.evaluate v = .ok .pass := by
    refine ((monotonicIncreasing_outcome v).1 _).2 (.rises (.tuple _) (by simp) ?_)
    rw [risesThroughout_iff_isChain]
    simpa using hstep
  have hw : FirstStop [.int 1, .int 2, .str "a", .int 0, .int 0] 1 (.int 2) (.str "a") := by
    refine ⟨rfl, rfl, by unfold Rises; decide +kernel, fun j hj u z hu hz => ?_⟩
    obtain rfl : j = 0 := by omega
    cases hu
    cases hz
    unfold Rises
    decide +kernel
  have hnames := Inapplicable.names .stepOrder w
  obtain ⟨hgt, hne, hne'⟩ := (monotonicIncreasing_outcome v).2 hv _ rfl 0 2 _ _ (by decide) rfl rfl
  exact ⟨hv, hgt, hne, hne', _,
    ((monotonicIncreasing_outcome w).1 _).2 (.unordered (.list _) hw rfl hnames), hnames⟩

end Check
end CallContract
