import CallContract.Proofs.Checks.Elements
import CallContract.Proofs.Checks.Growth

/-!
# Checks of elements of elements

Checks of elements around one another, `n` deep, walk down `n` levels of elements and leave the
innermost check, the leaf, to the values there. A place in a value is a path of positions from the
outside in (`Value.at?`); the walk takes the paths in lexicographic order. It stops at the first
value that offends (`FirstOffender`): one that should have elements and has none, or one at the
bottom that the leaf does not pass. The two are reported apart. A failure is told of the outermost
element on the way down, an operation that does not apply of the value it was needed for.

**Results.**
* `evaluate_nested_eq_pass`: a pass says that no value offends.
* `clear_or_firstOffender`, `FirstOffender.unique`: else there is one first offender.
* `evaluate_nested_of_first`: it alone decides what is reported.
* `nested_searches_depth_first`: the outcomes case by case.
-/
namespace CallContract

theorem exists_append_of_getElem? {α : Type} {l : List α} {i : Nat} {a : α} (h : l[i]? = some a) :
    ∃ before after, l = before ++ a :: after ∧ i = before.length := by
  obtain ⟨hi, rfl⟩ := List.getElem?_eq_some_iff.1 h
  refine ⟨l.take i, l.drop (i + 1), ?_, (List.length_take_of_le (Nat.le_of_lt hi)).symm⟩
  rw [List.getElem_cons_drop, List.take_append_drop]

/-- The value at the end of a path, whose entries are positions among the elements. -/
def Value.at? : Value → List Nat → Option Value
  | v, [] => some v
  | v, i :: path => do
    let items ← v.elements?
    let x ← items[i]?
    x.at? path

theorem Value.at?_cons_eq_some {v w : Value} {i : Nat} {path : List Nat} :
    v.at? (i :: path) = some w ↔
      ∃ items x, v.elements? = some items ∧ items[i]? = some x ∧ x.at? path = some w := by
  simp only [Value.at?, bind, Option.bind_eq_some_iff, exists_and_left]

theorem Value.at?_cons_of_elements? {v : Value} {items : List Value} (hv : v.elements? = some items)
    {w : Value} {i : Nat} {path : List Nat} :
    v.at? (i :: path) = some w ↔ ∃ x, items[i]? = some x ∧ x.at? path = some w := by
  rw [Value.at?_cons_eq_some, hv]
  simp only [Option.some.injEq, exists_and_left, exists_eq_left']

namespace Check

/-- The check under so many checks of elements. -/
def nested (leaf : Check) : Nat → Check
  | 0 => leaf
  | n + 1 => .eachSatisfies (leaf.nested n)

/-! ## Offenders -/

variable {leaf : Check} {n : Nat} {v w x : Value} {path : List Nat} {i : Nat}

/-- The value at the path has no elements where the walk asks for them, or it is at the bottom and
the leaf does not pass it. -/
def Offends (leaf : Check) (n : Nat) (path : List Nat) (w : Value) : Prop :=
  (path.length < n ∧ w.elements? = none) ∨ (path.length = n ∧ leaf.evaluate w ≠ .ok .pass)

theorem offends_zero : leaf.Offends 0 path w ↔ path = [] ∧ leaf.evaluate w ≠ .ok .pass := by
  simp [Offends]

theorem offends_succ_nil : leaf.Offends (n + 1) [] w ↔ w.elements? = none := by
  simp [Offends]

theorem offends_succ_cons : leaf.Offends (n + 1) (i :: path) w ↔ leaf.Offends n path w := by
  simp [Offends]

def Clear (leaf : Check) (n : Nat) (v : Value) : Prop :=
  ∀ path w, v.at? path = some w → ¬ leaf.Offends n path w

/-- The first value that offends, and the path to it. -/
structure FirstOffender (leaf : Check) (n : Nat) (v : Value) (path : List Nat) (w : Value) :
    Prop where
  reached : v.at? path = some w
  offends : leaf.Offends n path w
  first : ∀ path' w', v.at? path' = some w' → leaf.Offends n path' w' → ¬ path' < path

theorem FirstOffender.not_clear (h : FirstOffender leaf n v path w) : ¬ leaf.Clear n v :=
  fun hc => hc path w h.reached h.offends

theorem FirstOffender.unique {path' : List Nat} {w' : Value} (h : FirstOffender leaf n v path w)
    (h' : FirstOffender leaf n v path' w') : path = path' ∧ w = w' := by
  have hle := List.not_lt.1 (h.first path' w' h'.reached h'.offends)
  have hge := List.not_lt.1 (h'.first path w h.reached h.offends)
  obtain rfl := List.le_antisymm hle hge
  exact ⟨rfl, Option.some.inj (h.reached.symm.trans h'.reached)⟩

theorem clear_zero : leaf.Clear 0 v ↔ leaf.evaluate v = .ok .pass := by
  simp only [Clear, offends_zero, not_and, not_not]
  refine ⟨fun h => h [] v rfl rfl, ?_⟩
  rintro h path w hw rfl
  cases hw
  exact h

theorem clear_iff :
    leaf.Clear n v ↔
      (∀ path w, v.at? path = some w → path.length < n → ∃ items, w.elements? = some items) ∧
      (∀ path w, v.at? path = some w → path.length = n → leaf.evaluate w = .ok .pass) := by
  constructor
  · intro h
    refine ⟨fun path w hw hlt => ?_, fun path w hw hlen => ?_⟩
    · exact Option.ne_none_iff_exists'.1 fun hnone => h path w hw (.inl ⟨hlt, hnone⟩)
    · exact not_not.1 fun hne => h path w hw (.inr ⟨hlen, hne⟩)
  · rintro ⟨habove, hbelow⟩ path w hw (⟨hlt, hnone⟩ | ⟨hlen, hne⟩)
    · obtain ⟨items, hitems⟩ := habove path w hw hlt
      cases hnone.symm.trans hitems
    · exact hne (hbelow path w hw hlen)

/-- A level further up, the value must have elements, and they are clear one by one. -/
theorem clear_succ :
    leaf.Clear (n + 1) v ↔ ∃ items, v.elements? = some items ∧ ∀ x ∈ items, leaf.Clear n x := by
  constructor
  · intro h
    obtain ⟨items, hv⟩ := Option.ne_none_iff_exists'.1 (mt offends_succ_nil.2 (h [] v rfl))
    refine ⟨items, hv, fun x hx path w hw => ?_⟩
    obtain ⟨i, hi⟩ := List.mem_iff_getElem?.1 hx
    have hreached := (Value.at?_cons_of_elements? hv).2 ⟨x, hi, hw⟩
    exact mt offends_succ_cons.2 (h (i :: path) w hreached)
  · rintro ⟨items, hv, hitems⟩ path w hw
    cases path with
    | nil =>
      cases hw
      rw [offends_succ_nil, hv]
      exact Option.some_ne_none items
    | cons i path =>
      obtain ⟨x, hi, hw⟩ := (Value.at?_cons_of_elements? hv).1 hw
      rw [offends_succ_cons]
      exact hitems x (List.mem_of_getElem? hi) path w hw

/-! ## The first of them -/

theorem firstOffender_zero :
    FirstOffender leaf 0 v path w ↔ path = [] ∧ w = v ∧ leaf.evaluate v ≠ .ok .pass := by
  constructor
  · intro h
    obtain ⟨rfl, hw⟩ := offends_zero.1 h.offends
    cases h.reached
    exact ⟨rfl, rfl, hw⟩
  · rintro ⟨rfl, rfl, hw⟩
    exact ⟨rfl, offends_zero.2 ⟨rfl, hw⟩, fun path' _ _ _ => List.not_lt_nil path'⟩

theorem firstOffender_succ_nil :
    FirstOffender leaf (n + 1) v [] w ↔ w = v ∧ v.elements? = none := by
  constructor
  · intro h
    cases h.reached
    exact ⟨rfl, offends_succ_nil.1 h.offends⟩
  · rintro ⟨rfl, hv⟩
    exact ⟨rfl, offends_succ_nil.2 hv, fun path' _ _ _ => List.not_lt_nil path'⟩

/-- Behind elements that are clear, what offends first in an element offends first. -/
theorem FirstOffender.cons (before after : List Value)
    (hv : v.elements? = some (before ++ x :: after)) (hb : ∀ b ∈ before, leaf.Clear n b)
    (h : FirstOffender leaf n x path w) :
    FirstOffender leaf (n + 1) v (before.length :: path) w := by
  have hx : (before ++ x :: after)[before.length]? = some x := by simp
  refine ⟨(Value.at?_cons_of_elements? hv).2 ⟨x, hx, h.reached⟩, offends_succ_cons.2 h.offends,
    fun path' w' hw' ho hlt => ?_⟩
  cases path' with
  | nil =>
    rw [offends_succ_nil] at ho
    cases hw'
    cases hv.symm.trans ho
  | cons j path' =>
    rw [offends_succ_cons] at ho
    obtain ⟨y, hj, hw'⟩ := (Value.at?_cons_of_elements? hv).1 hw'
    -- an earlier path leads into an element in front, which is clear, or is earlier within `x`
    rcases List.cons_lt_cons_iff.1 hlt with hjb | ⟨rfl, hlt'⟩
    · rw [List.getElem?_append_left hjb] at hj
      exact hb y (List.mem_of_getElem? hj) path' w' hw' ho
    · cases hx.symm.trans hj
      exact h.first path' w' hw' ho hlt'

/-- All elements in front of the one that holds the first offender are clear. -/
theorem FirstOffender.exists_of_cons (h : FirstOffender leaf (n + 1) v (i :: path) w) :
    ∃ before x after, v.elements? = some (before ++ x :: after) ∧ i = before.length ∧
      (∀ b ∈ before, leaf.Clear n b) ∧ FirstOffender leaf n x path w := by
  obtain ⟨items, x, hv, hi, hw⟩ := Value.at?_cons_eq_some.1 h.reached
  have hfirst : ∀ j y path' w', items[j]? = some y → y.at? path' = some w' →
      leaf.Offends n path' w' → ¬ j :: path' < i :: path := fun j y path' w' hj hw' ho =>
    h.first _ _ ((Value.at?_cons_of_elements? hv).2 ⟨y, hj, hw'⟩) (offends_succ_cons.2 ho)
  obtain ⟨before, after, rfl, rfl⟩ := exists_append_of_getElem? hi
  refine ⟨before, x, after, hv, rfl, fun b hb path' w' hw' ho => ?_, hw,
    offends_succ_cons.1 h.offends, fun path' w' hw' ho hlt => ?_⟩
  · obtain ⟨j, hj⟩ := List.mem_iff_getElem?.1 hb
    have hjb : j < before.length := (List.getElem?_eq_some_iff.1 hj).1
    rw [← List.getElem?_append_left hjb] at hj
    exact hfirst j b path' w' hj hw' ho (List.cons_lt_cons_iff.2 (.inl hjb))
  · exact hfirst _ x path' w' hi hw' ho (List.cons_lt_cons_iff.2 (.inr ⟨rfl, hlt⟩))

theorem clear_or_firstOffender (leaf : Check) (n : Nat) (v : Value) :
    leaf.Clear n v ∨ ∃ path w, FirstOffender leaf n v path w := by
  induction n generalizing v with
  | zero =>
    by_cases hv : leaf.evaluate v = .ok .pass
    · exact .inl (clear_zero.2 hv)
    · exact .inr ⟨[], v, firstOffender_zero.2 ⟨rfl, rfl, hv⟩⟩
  | succ n ih =>
    cases hv : v.elements? with
    | none => exact .inr ⟨[], v, firstOffender_succ_nil.2 ⟨rfl, hv⟩⟩
    | some items =>
      rcases forall_mem_or_first (leaf.Clear n) items with hall | ⟨before, x, after, rfl, hb, hx⟩
      · exact .inl (clear_succ.2 ⟨items, hv, hall⟩)
      · obtain ⟨path, w, h⟩ := (ih x).resolve_left hx
        exact .inr ⟨_, w, h.cons before after hv hb⟩

/-! ## What the walk comes to -/

theorem evaluate_nested_eq_pass : (leaf.nested n).evaluate v = .ok .pass ↔ leaf.Clear n v := by
  induction n generalizing v with
  | zero => rw [clear_zero, nested]
  | succ n ih => simp only [nested, evaluate_eachSatisfies_eq_pass, clear_succ, ih]

/-- What is found at a path: above the bottom, that the value has no elements. -/
def found (leaf : Check) (n : Nat) (path : List Nat) (w : Value) : Except Inapplicable Verdict :=
  if path.length < n then .error ⟨.iteration, w⟩ else leaf.evaluate w

theorem found_succ_cons : leaf.found (n + 1) (i :: path) w = leaf.found n path w := by
  simp only [found, List.length_cons, Nat.add_lt_add_iff_right]

/-- What a verdict at a path is told of: the outermost element on the way there. -/
def relabel (v : Value) (path : List Nat) (verdict : Verdict) : Verdict :=
  match path with
  | [] => verdict
  | i :: _ =>
    match v.at? [i] with
    | some x => .failAt i x
    | none => verdict

theorem relabel_cons (hx : v.at? [i] = some x) : relabel v (i :: path) = fun _ => .failAt i x := by
  funext verdict
  simp only [relabel, hx]

/-- A verdict is told anew at each level and the last telling stays; an error goes up as it is. -/
theorem evaluate_nested_of_first (h : FirstOffender leaf n v path w) :
    (leaf.nested n).evaluate v = (leaf.found n path w).map (relabel v path) := by
  induction n generalizing v path with
  | zero =>
    obtain ⟨rfl, rfl, -⟩ := firstOffender_zero.1 h
    change leaf.evaluate w = (leaf.evaluate w).map id
    cases leaf.evaluate w <;> rfl
  | succ n ih =>
    cases path with
    | nil =>
      obtain ⟨rfl, hv⟩ := firstOffender_succ_nil.1 h
      exact evaluate_eachSatisfies_of_elements?_eq_none hv
    | cons i path =>
      obtain ⟨before, x, after, hv, rfl, hb, h⟩ := h.exists_of_cons
      have hx : v.at? [before.length] = some x := (Value.at?_cons_of_elements? hv).2 ⟨x, by simp, rfl⟩
      have hpass : ∀ b ∈ before, (leaf.nested n).evaluate b = .ok .pass := fun b hmem =>
        evaluate_nested_eq_pass.2 (hb b hmem)
      have hstop : (leaf.nested n).evaluate x ≠ .ok .pass := mt evaluate_nested_eq_pass.1 h.not_clear
      rw [nested, evaluate_eachSatisfies_of_first hv hpass hstop, ih h, found_succ_cons,
        relabel_cons hx]
      cases leaf.found n path w <;> rfl

/-- What a walk down `n` levels comes to. -/
inductive WalkOutcome (leaf : Check) (n : Nat) (v : Value) : Except Inapplicable Verdict → Prop where
  | passes
      (above : ∀ path w, v.at? path = some w → path.length < n → ∃ items, w.elements? = some items)
      (bottom : ∀ path w, v.at? path = some w → path.length = n → leaf.evaluate w = .ok .pass) :
      WalkOutcome leaf n v (.ok .pass)
  /-- Told of the outermost element on the path. -/
  | fails {i : Nat} {path : List Nat} {w x : Value} (h : FirstOffender leaf n v (i :: path) w)
      (hlen : (i :: path).length = n) (hw : leaf.evaluate w = .ok .fail)
      (hx : v.at? [i] = some x) : WalkOutcome leaf n v (.ok (.failAt i x))
  | notIterable {path : List Nat} {w : Value} {e : Inapplicable}
      (h : FirstOffender leaf n v path w) (hlen : path.length < n)
      (he : e.Names "for elem in x" w) : WalkOutcome leaf n v (.error e)
  | inapplicable {path : List Nat} {w : Value} {e : Inapplicable}
      (h : FirstOffender leaf n v path w) (hlen : path.length = n)
      (hw : leaf.evaluate w = .error e) (he : e.value = w) : WalkOutcome leaf n v (.error e)

theorem evaluate_of_walkOutcome {outcome : Except Inapplicable Verdict}
    (h : WalkOutcome leaf n v outcome) : (leaf.nested n).evaluate v = outcome := by
  cases h with
  | passes above bottom => exact evaluate_nested_eq_pass.2 (clear_iff.2 ⟨above, bottom⟩)
  | fails h hlen hw hx =>
    rw [evaluate_nested_of_first h, found, if_neg (by omega), hw, relabel_cons hx]
    rfl
  | notIterable h hlen he =>
    have he : _ = Inapplicable.mk .iteration _ := he.eq
    rw [evaluate_nested_of_first h, found, if_pos hlen, he]
    rfl
  | inapplicable h hlen hw he =>
    rw [evaluate_nested_of_first h, found, if_neg (by omega), hw]
    rfl

theorem exists_walkOutcome (hleaf : leaf.category ≠ .each) (hn : 0 < n) (v : Value) :
    ∃ outcome, WalkOutcome leaf n v outcome := by
  rcases clear_or_firstOffender leaf n v with hclear | ⟨path, w, h⟩
  · obtain ⟨above, bottom⟩ := clear_iff.1 hclear
    exact ⟨_, .passes above bottom⟩
  · rcases h.offends with ⟨hlt, -⟩ | ⟨hlen, hne⟩
    · exact ⟨_, .notIterable h hlt (Inapplicable.names .iteration w)⟩
    · cases hw : leaf.evaluate w with
      | error e => exact ⟨_, .inapplicable h hlen hw (value_of_evaluate_eq_error hleaf hw)⟩
      | ok verdict =>
        obtain ⟨passed, rfl⟩ := verdict_eq_ofBool hleaf hw
        cases passed with
        | true => exact absurd hw hne
        | false =>
          obtain - | ⟨i, path⟩ := path
          · exact absurd hlen hn.ne
          · obtain ⟨items, x, hv, hx, -⟩ := Value.at?_cons_eq_some.1 h.reached
            exact ⟨_, .fails h hlen hw ((Value.at?_cons_of_elements? hv).2 ⟨x, hx, rfl⟩)⟩

/-- Checks of elements around a leaf of another kind search depth first, from left to right, for a
value that does not pass. There is at most one that comes first, and the outcome is told of it. -/
theorem nested_searches_depth_first (hleaf : ∀ inner, leaf ≠ .eachSatisfies inner) (hn : 0 < n)
    (v : Value) :
    (∀ outcome, (leaf.nested n).evaluate v = outcome ↔ WalkOutcome leaf n v outcome) ∧
    (∀ path w path' w', FirstOffender leaf n v path w → FirstOffender leaf n v path' w' →
      path = path' ∧ w = w') := by
  have hcategory : leaf.category ≠ .each := fun h =>
    have ⟨inner, he⟩ := category_eq_each_iff.1 h
    hleaf inner he
  refine ⟨fun outcome => ⟨?_, evaluate_of_walkOutcome⟩, fun path w path' w' h h' => h.unique h'⟩
  rintro rfl
  obtain ⟨outcome, h⟩ := exists_walkOutcome hcategory hn v
  rwa [evaluate_of_walkOutcome h]

/-- Two levels down, an empty key fails, though the next key has no length and the next element no
elements. A number among the elements is reported itself, ahead of a failure behind it; a truth
value at the bottom has no length. -/
theorem empty_key_found_first :
    let keys : Value := .dict [(.tuple [.none], .none), (.tuple [], .none), (.int 1, .none)]
    (nonEmpty.nested 2).evaluate (.list [.str "ab", keys, .none]) = .ok (.failAt 1 keys) ∧
    (∃ e, (nonEmpty.nested 2).evaluate (.list [.str "ab", .int 5, .tuple [.tuple []]]) = .error e ∧
      e.Names "for elem in x" (.int 5)) ∧
    (∃ e, (nonEmpty.nested 2).evaluate (.list [.tuple [.bool true], .none]) = .error e ∧
      e.Names "len(x)" (.bool true)) := by
  intro keys
  have hleaf : ∀ inner, nonEmpty ≠ .eachSatisfies inner := fun _ h => by cases h
  have htext : nonEmpty.Clear 1 (.str "ab") := evaluate_nested_eq_pass.1 rfl
  have hkey : nonEmpty.Clear 0 (.tuple [.none]) := evaluate_nested_eq_pass.1 rfl
  have hempty : FirstOffender nonEmpty 0 (.tuple []) [] (.tuple []) :=
    firstOffender_zero.2 ⟨rfl, rfl, by simp [evaluate, Value.length?, ofBool]⟩
  have hkeys : FirstOffender nonEmpty 1 keys [1] (.tuple []) :=
    hempty.cons [.tuple [.none]] [.int 1] rfl (by simpa using hkey)
  have hnumber : FirstOffender nonEmpty 1 (.int 5) [] (.int 5) :=
    firstOffender_succ_nil.2 ⟨rfl, rfl⟩
  have htruth : FirstOffender nonEmpty 0 (.bool true) [] (.bool true) :=
    firstOffender_zero.2 ⟨rfl, rfl, by simp [evaluate, Value.length?]⟩
  have htuple : FirstOffender nonEmpty 1 (.tuple [.bool true]) [0] (.bool true) :=
    htruth.cons [] [] rfl (by simp)
  refine ⟨?_, ⟨_, ?_, Inapplicable.names .iteration _⟩, ⟨_, ?_, Inapplicable.names .length _⟩⟩
  · have hfirst := hkeys.cons (v := .list [.str "ab", keys, .none]) [.str "ab"] [.none] rfl
      (by simpa using htext)
    exact ((nested_searches_depth_first hleaf Nat.two_pos _).1 _).2 (.fails hfirst rfl rfl rfl)
  · have hfirst := hnumber.cons (v := .list [.str "ab", .int 5, .tuple [.tuple []]])
      [.str "ab"] [.tuple [.tuple []]] rfl (by simpa using htext)
    exact ((nested_searches_depth_first hleaf Nat.two_pos _).1 _).2
      (.notIterable hfirst (by decide) (Inapplicable.names .iteration _))
  · have hfirst := htuple.cons (v := .list [.tuple [.bool true], .none]) [] [.none] rfl (by simp)
    exact ((nested_searches_depth_first hleaf Nat.two_pos _).1 _).2
      (.inapplicable hfirst rfl rfl rfl)

end Check
end CallContract
