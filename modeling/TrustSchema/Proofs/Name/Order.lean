import Mathlib.Data.List.Shortlex
import TrustSchema.Name.Basic

/-!
The canonical order. Components are ordered by their size first and names by their first different
component, a name before those that it begins. The names that begin with a given one follow upon it
without a gap, and among themselves they are in the order of what comes after it. Sorting puts each
given name once in its place.
-/

namespace TrustSchema

section lists

variable {α : Type} {cmp : α → α → Ordering}

theorem compareLex_lt_iff [Std.LawfulEqCmp cmp] (as bs : List α) :
    List.compareLex cmp as bs = .lt ↔ List.Lex (fun a b => cmp a b = .lt) as bs := by
  induction as generalizing bs with
  | nil => cases bs <;> simp [List.compareLex]
  | cons a as ih =>
    cases bs with
    | nil => simp [List.compareLex]
    | cons b bs =>
      rw [List.compareLex_cons_cons, Ordering.then_eq_lt, ih, Std.LawfulEqCmp.compare_eq_iff_eq]
      constructor
      · rintro (first | ⟨rfl, later⟩)
        · exact .rel first
        · exact .cons later
      · intro before
        cases before with
        | rel first => exact .inl first
        | cons later => exact .inr ⟨rfl, later⟩

theorem compareLex_append_left [Std.ReflCmp cmp] (front as bs : List α) :
    List.compareLex cmp (front ++ as) (front ++ bs) = List.compareLex cmp as bs := by
  induction front with
  | nil => rfl
  | cons c front ih =>
    have same : cmp c c = .eq := Std.ReflCmp.compare_self
    rw [List.cons_append, List.cons_append, List.compareLex_cons_cons, same]
    exact ih

/-- A list between two that begin alike begins as they do. -/
theorem prefix_of_between [Std.OrientedCmp cmp] [Std.LawfulEqCmp cmp] {front bs cs : List α}
    (start : front <+: cs) (above : (List.compareLex cmp front bs).isLE)
    (below : (List.compareLex cmp bs cs).isLE) : front <+: bs := by
  induction front generalizing bs cs with
  | nil => exact List.nil_prefix
  | cons c front ih =>
    obtain ⟨rest, rfl⟩ := start
    cases bs with
    | nil => cases above
    | cons b bs =>
      rw [List.compareLex_cons_cons] at above
      rw [List.cons_append, List.compareLex_cons_cons] at below
      -- A first difference would put the list on one side of both.
      have same : cmp c b = .eq := by
        cases first : cmp c b with
        | eq => rfl
        | lt =>
          rw [Std.OrientedCmp.gt_of_lt first] at below
          cases below
        | gt =>
          rw [first] at above
          cases above
      obtain rfl := Std.LawfulEqCmp.eq_of_compare same
      rw [same] at above below
      exact List.prefix_cons_inj c |>.mpr (ih ⟨rest, rfl⟩ above below)

theorem eraseReps_loop [BEq α] (a : α) (as kept : List α) :
    List.eraseRepsBy.loop (· == ·) a as kept = kept.reverse ++ List.eraseReps (a :: as) := by
  change _ = kept.reverse ++ List.eraseRepsBy.loop (· == ·) a as []
  induction as generalizing a kept with
  | nil => simp [List.eraseRepsBy.loop]
  | cons b as ih =>
    simp only [List.eraseRepsBy.loop]
    cases a == b with
    | true => exact ih a kept
    | false => simp only [ih b (a :: kept), ih b [a], List.reverse_cons, List.append_assoc,
        List.reverse_nil, List.nil_append]

theorem eraseReps_cons_cons [BEq α] (a b : α) (as : List α) :
    (a :: b :: as).eraseReps =
      if a == b then (a :: as).eraseReps else a :: (b :: as).eraseReps := by
  change List.eraseRepsBy.loop (· == ·) a (b :: as) [] = _
  rw [List.eraseRepsBy.loop]
  cases a == b with
  | true => rfl
  | false => exact eraseReps_loop b as [a]

theorem mem_eraseReps [BEq α] [LawfulBEq α] {c : α} (as : List α) :
    c ∈ as.eraseReps ↔ c ∈ as := by
  cases as with
  | nil => rfl
  | cons a as =>
    induction as generalizing a with
    | nil => rfl
    | cons b as ih =>
      rw [eraseReps_cons_cons]
      split
      next same =>
        obtain rfl := eq_of_beq same
        rw [ih, List.mem_cons, List.mem_cons, List.mem_cons, ← or_assoc, or_self]
      next => rw [List.mem_cons, ih, ← List.mem_cons]

/-- Once the repetitions are gone from an ascending list, each element is below all later ones. -/
theorem pairwise_eraseReps [BEq α] [LawfulBEq α] [Std.TransCmp cmp] [Std.LawfulEqCmp cmp]
    {as : List α} (ascending : as.Pairwise fun a b => (cmp a b).isLE) :
    as.eraseReps.Pairwise fun a b => cmp a b = .lt := by
  cases as with
  | nil => exact .nil
  | cons a as =>
    induction as generalizing a with
    | nil => exact List.pairwise_singleton _ _
    | cons b as ih =>
      rw [eraseReps_cons_cons]
      have rest := List.pairwise_cons.mp ascending
      split
      next same =>
        obtain rfl := eq_of_beq same
        exact ih a rest.2
      next different =>
        have below : cmp a b = .lt := by
          have above := rest.1 b List.mem_cons_self
          rw [Ordering.isLE_iff_eq_lt_or_eq_eq, Std.LawfulEqCmp.compare_eq_iff_eq] at above
          exact above.resolve_right fun same => different (beq_iff_eq.mpr same)
        refine List.pairwise_cons.mpr ⟨fun c later => ?_, ih b rest.2⟩
        rw [mem_eraseReps] at later
        obtain rfl | later := List.mem_cons.mp later
        · exact below
        · have above := (List.pairwise_cons.mp rest.2).1 c later
          exact Std.TransCmp.lt_of_lt_of_isLE below above

theorem pairwise_mergeSort_isLE [Std.TransCmp cmp] (as : List α) :
    (as.mergeSort fun a b => (cmp a b).isLE).Pairwise fun a b => (cmp a b).isLE := by
  refine List.pairwise_mergeSort (fun a b c => Std.TransCmp.isLE_trans) (fun a b => ?_) as
  have swapped : cmp b a = (cmp a b).swap := Std.OrientedCmp.eq_swap
  rw [swapped]
  cases cmp a b <;> rfl

end lists

namespace Component

/-- Whether a component has fewer octets, or as many and the smaller one where they first differ. -/
def Before (a b : Component) : Prop :=
  List.Shortlex (· < ·) a.bytes b.bytes

theorem order_lt_iff (a b : Component) : order a b = .lt ↔ a.Before b := by
  rw [order, Before, List.shortlex_def, Ordering.then_eq_lt, compareLex_lt_iff]
  simp only [Nat.compare_eq_eq, Std.compare_eq_lt]

theorem order_eq_compareLex :
    order = compareLex (compareOn size) (compareOn Component.bytes) := by
  funext a b
  rw [order, compareLex, compareOn, compareOn, List.compare_eq_compareLex]
  rfl

instance : Std.TransCmp order := by
  rw [order_eq_compareLex]
  infer_instance

instance : Std.LawfulEqCmp order where
  eq_of_compare := by
    intro a b same
    rw [order, Ordering.then_eq_eq] at same
    exact congrArg Component.mk (Std.LawfulEqCmp.eq_of_compare same.2)

/-- Sorting rearranges components into ascending order. -/
theorem sorted_ascending (components : List Component) :
    (sorted components).Perm components ∧
    (sorted components).Pairwise fun a b => (order a b).isLE :=
  ⟨List.mergeSort_perm _ _, pairwise_mergeSort_isLE components⟩

end Component

namespace Name

instance : Std.TransCmp order where
  eq_swap := by
    intro n m
    change List.compareLex Component.order _ _ = (List.compareLex Component.order _ _).swap
    exact Std.OrientedCmp.eq_swap
  isLE_trans := by
    intro n m k first second
    change (List.compareLex Component.order _ _).isLE at first second ⊢
    exact Std.TransCmp.isLE_trans first second

instance : Std.LawfulEqCmp order where
  eq_of_compare := by
    intro n m same
    have components : n.components = m.components := Std.LawfulEqCmp.eq_of_compare same
    exact congrArg Name.mk components

theorem order_lt_iff (n m : Name) :
    order n m = .lt ↔ List.Lex Component.Before n.components m.components := by
  rw [order, compareLex_lt_iff]
  simp only [Component.order_lt_iff]

theorem order_append_left (p n m : Name) : order (p ++ n) (p ++ m) = order n m :=
  compareLex_append_left p.components n.components m.components

theorem order_of_isPrefixOf {p n : Name} (start : p.isPrefixOf n = true) (different : p ≠ n) :
    order p n = .lt := by
  -- What is added to the prefix is compared with nothing.
  rw [isPrefixOf_iff] at start
  obtain ⟨rest, components⟩ := start
  have whole : p ++ ⟨rest⟩ = n := congrArg Name.mk components
  have nothing : p ++ root = p := congrArg Name.mk (List.append_nil _)
  have added := order_append_left p root ⟨rest⟩
  rw [nothing, whole] at added
  rw [added]
  cases rest with
  | nil => exact absurd (nothing.symm.trans whole) different
  | cons c rest => rfl

theorem isPrefixOf_of_between {p n m : Name} (start : p.isPrefixOf m = true)
    (above : (order p n).isLE) (below : (order n m).isLE) : p.isPrefixOf n = true := by
  rw [isPrefixOf_iff] at start ⊢
  exact prefix_of_between start above below

/-- Names are in the order of their first different components, a shorter component before a longer
one and equally long ones by their first different octet. It is a total order of the names: equal
are only the same ones. A name comes before all that extend it, the names that extend it are in the
order of what they add to it, and nothing else stands among them. -/
theorem order_canonical (p n m : Name) :
    (order n m = .lt ↔ List.Lex Component.Before n.components m.components) ∧
    (order n m = .eq ↔ n = m) ∧
    order m n = (order n m).swap ∧
    (∀ k, (order n m).isLE → (order m k).isLE → (order n k).isLE) ∧
    (p.isPrefixOf n = true → p ≠ n → order p n = .lt) ∧
    order (p ++ n) (p ++ m) = order n m ∧
    (p.isPrefixOf m = true → (order p n).isLE → (order n m).isLE → p.isPrefixOf n = true) := by
  refine ⟨order_lt_iff n m, Std.LawfulEqCmp.compare_eq_iff_eq, Std.OrientedCmp.eq_swap,
    fun k => Std.TransCmp.isLE_trans, order_of_isPrefixOf, order_append_left p n m,
    isPrefixOf_of_between⟩

/-- Sorting keeps each name once, and every name comes before all that stand after it. -/
theorem sorted_ascending (names : List Name) :
    (∀ n, n ∈ sorted names ↔ n ∈ names) ∧
    (sorted names).Pairwise fun n m => order n m = .lt := by
  constructor
  · intro n
    rw [sorted, mem_eraseReps, List.mem_mergeSort]
  · exact pairwise_eraseReps (pairwise_mergeSort_isLE names)

end Name

end TrustSchema
