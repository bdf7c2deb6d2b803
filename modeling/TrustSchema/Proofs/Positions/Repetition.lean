import Mathlib.Logic.Function.Iterate
import TrustSchema.Positions.Repeat

/-!
Repeating a step within bounds leads exactly to the positions that an allowed number of
applications of the step leads to. The loop stops early, and every stop is justified in the same
way: no number of steps that the loop has not taken leads to a position that it does not hold.
-/

namespace TrustSchema.Positions

variable {n : Nat}

/-- A step that goes from each member of a set along a relation between positions. -/
def Along (step : Positions n → Positions n) (leads : Nat → Nat → Prop) : Prop :=
  ∀ s q, (step s).has q = true ↔ ∃ p, s.has p = true ∧ leads p q

/-- The set holds what the allowed numbers of steps up to `count` lead to. -/
def HoldsUpTo (step : Positions n → Positions n) (b : Bounds) (s : Positions n) (count : Nat)
    (reached : Positions n) : Prop :=
  ∀ q, reached.has q = true ↔ ∃ k ≤ count, b.allow k ∧ (step^[k] s).has q = true

/-- The set holds what the allowed numbers of steps lead to. -/
def Holds (step : Positions n → Positions n) (b : Bounds) (s reached : Positions n) : Prop :=
  ∀ q, reached.has q = true ↔ ∃ k, b.allow k ∧ (step^[k] s).has q = true

theorem isEmpty_iff (s : Positions n) : s.isEmpty = true ↔ s = empty := by
  rw [isEmpty, beq_iff_eq]

theorem isEmpty_eq_false_iff (s : Positions n) : s.isEmpty = false ↔ ∃ q, s.has q = true := by
  rw [Bool.eq_false_iff, ne_eq, isEmpty_iff]
  constructor
  · intro occupied
    by_contra none
    apply occupied
    apply ext
    intro q
    rw [has_empty, Bool.eq_false_iff]
    intro member
    exact none ⟨q, member⟩
  · rintro ⟨q, member⟩ rfl
    rw [has_empty] at member
    exact Bool.false_ne_true member

theorem along_empty {step : Positions n → Positions n} {leads : Nat → Nat → Prop}
    (along : Along step leads) : step empty = empty := by
  apply ext
  intro q
  rw [has_empty, Bool.eq_false_iff]
  intro member
  obtain ⟨p, inside, -⟩ := (along empty q).mp member
  rw [has_empty] at inside
  exact Bool.false_ne_true inside

variable {step : Positions n → Positions n} {leads : Nat → Nat → Prop} {b : Bounds}
  {s reached : Positions n} {count : Nat}

theorem iterate_of_empty (along : Along step leads) (nowhere : step^[count] s = empty) (k : Nat)
    (later : count ≤ k) : step^[k] s = empty := by
  obtain ⟨extra, rfl⟩ := Nat.exists_eq_add_of_le' later
  rw [Function.iterate_add_apply, nowhere]
  exact Function.iterate_fixed (along_empty along) extra

theorem iterate_of_fixed (same : step (step^[count] s) = step^[count] s) (k : Nat)
    (later : count ≤ k) : step^[k] s = step^[count] s := by
  obtain ⟨extra, rfl⟩ := Nat.exists_eq_add_of_le' later
  rw [Function.iterate_add_apply]
  exact Function.iterate_fixed same extra

/-- Stopping is right when the steps that are not taken add nothing. -/
theorem HoldsUpTo.stop (known : HoldsUpTo step b s count reached)
    (settled : ∀ k, count < k → b.allow k → ∀ q, (step^[k] s).has q = true →
      reached.has q = true) : Holds step b s reached := by
  intro q
  constructor
  · intro member
    obtain ⟨k, -, allowed, arrives⟩ := (known q).mp member
    exact ⟨k, allowed, arrives⟩
  · rintro ⟨k, allowed, arrives⟩
    by_cases taken : k ≤ count
    · exact (known q).mpr ⟨k, taken, allowed, arrives⟩
    · exact settled k (Nat.lt_of_not_le taken) allowed q arrives

theorem HoldsUpTo.next (known : HoldsUpTo step b s count reached)
    (allowed : b.allow (count + 1)) :
    HoldsUpTo step b s (count + 1) (reached.union (step^[count + 1] s)) := by
  intro q
  rw [has_union, Bool.or_eq_true, known q]
  constructor
  · rintro (⟨k, le, fits, arrives⟩ | arrives)
    · exact ⟨k, Nat.le_succ_of_le le, fits, arrives⟩
    · exact ⟨count + 1, Nat.le_refl _, allowed, arrives⟩
  · rintro ⟨k, le, fits, arrives⟩
    by_cases last : k = count + 1
    · subst last
      exact Or.inr arrives
    · exact Or.inl ⟨k, by omega, fits, arrives⟩

theorem HoldsUpTo.nextBelow (known : HoldsUpTo step b s count reached)
    (few : count + 1 < b.min) : HoldsUpTo step b s (count + 1) reached := by
  intro q
  rw [known q]
  constructor
  · rintro ⟨k, le, fits, arrives⟩
    exact ⟨k, Nat.le_succ_of_le le, fits, arrives⟩
  · rintro ⟨k, le, fits, arrives⟩
    have enough : b.min ≤ k := fits.1
    exact ⟨k, by omega, fits, arrives⟩

/-- If the next allowed step adds nothing to what is held, no later one does. -/
theorem HoldsUpTo.within (along : Along step leads) (known : HoldsUpTo step b s count reached)
    (allowed : b.allow (count + 1))
    (inside : ∀ q, (step^[count + 1] s).has q = true → reached.has q = true) (k : Nat)
    (later : count < k) (q : Nat) (arrives : (step^[k] s).has q = true) :
    reached.has q = true := by
  -- What is held comes from earlier steps, so that one step from there is either one of them or
  -- the step that adds nothing: what is held is closed under the step.
  have closed : ∀ p r, reached.has p = true → leads p r → reached.has r = true := by
    intro p r held edge
    obtain ⟨j, le, fits, before⟩ := (known p).mp held
    have moved : (step^[j + 1] s).has r = true := by
      rw [Function.iterate_succ_apply', along]
      exact ⟨p, before, edge⟩
    by_cases last : j = count
    · subst last
      exact inside r moved
    · have more : b.allow (j + 1) :=
        ⟨Nat.le_succ_of_le fits.1, fun m limit => by
          have := allowed.2 m limit
          omega⟩
      exact (known r).mpr ⟨j + 1, by omega, more, moved⟩
  obtain ⟨extra, rfl⟩ := Nat.exists_eq_add_of_le' (Nat.succ_le_of_lt later)
  clear later
  -- By induction on the steps after the one that adds nothing.
  induction extra generalizing q with
  | zero =>
    rw [Nat.zero_add] at arrives
    exact inside q arrives
  | succ extra ih =>
    rw [Nat.succ_add, Function.iterate_succ_apply', along] at arrives
    obtain ⟨p, before, edge⟩ := arrives
    exact closed p q (ih p before) edge

private theorem le_of_full (full : b.max.any (· ≤ count) = true) {k : Nat} (allowed : b.allow k) :
    k ≤ count := by
  cases limit : b.max with
  | none => simp [limit] at full
  | some m =>
    have most := allowed.2 m limit
    rw [limit, Option.any_some, decide_eq_true_eq] at full
    exact Nat.le_trans most full

private theorem succ_le_of_space (space : ¬b.max.any (· ≤ count) = true) :
    ∀ m ∈ b.max, count + 1 ≤ m := by
  intro m limit
  rw [Option.mem_def] at limit
  rw [limit, Option.any_some, decide_eq_true_eq] at space
  exact Nat.succ_le_of_lt (Nat.lt_of_not_le space)

private theorem iterate_next {frontier : Positions n} (start : step^[count] s = frontier) :
    step^[count + 1] s = step frontier := by
  rw [Function.iterate_succ_apply', start]

/-- A step that does not move from the frontier leads nowhere else, however often it is taken. -/
theorem HoldsUpTo.still (known : HoldsUpTo step b s count reached)
    (space : ¬b.max.any (· ≤ count) = true) (same : step (step^[count] s) = step^[count] s) :
    Holds step b s (reached.union (step^[count] s)) := by
  intro q
  rw [has_union, Bool.or_eq_true, known q]
  constructor
  · rintro (⟨k, -, allowed, arrives⟩ | arrives)
    · exact ⟨k, allowed, arrives⟩
    · -- The frontier stands for every number of steps from `count` on, and the least number above
      -- it that the lower bound admits is below the upper one.
      have allowed : b.allow (max b.min (count + 1)) :=
        ⟨Nat.le_max_left _ _, fun m limit =>
          Nat.max_le.mpr ⟨b.min_le_max m limit, succ_le_of_space space m limit⟩⟩
      refine ⟨_, allowed, ?_⟩
      rw [iterate_of_fixed same _ (by omega)]
      exact arrives
  · rintro ⟨k, allowed, arrives⟩
    by_cases taken : k ≤ count
    · exact Or.inl ⟨k, taken, allowed, arrives⟩
    · rw [iterate_of_fixed same k (by omega)] at arrives
      exact Or.inr arrives

/-- The loop keeps the invariant, and whatever it returns holds what the allowed numbers of steps
lead to. -/
theorem holds_repeatFrom (along : Along step leads) (frontier : Positions n)
    (start : step^[count] s = frontier) (known : HoldsUpTo step b s count reached) :
    Holds step b s (repeatFrom step b count frontier reached).reached := by
  -- Four ways out of the loop, each with its reason to stop, and two ways on.
  fun_induction repeatFrom step b count frontier reached with
  | case1 count frontier reached full =>
    apply known.stop
    intro k later allowed
    exact absurd (le_of_full full allowed) (Nat.not_le_of_lt later)
  | case2 count frontier reached space next nowhere =>
    have moved : step^[count + 1] s = empty :=
      (iterate_next start).trans ((isEmpty_iff next).mp nowhere)
    apply known.stop
    intro k later allowed q arrives
    rw [iterate_of_empty along moved k later, has_empty] at arrives
    exact absurd arrives Bool.false_ne_true
  | case3 count frontier reached space next moves same =>
    have still := known.still space (by rw [start]; exact same)
    rw [start] at still
    rw [same]
    exact still
  | case4 count frontier reached space next moves differs enough same =>
    -- The union is what was held before, so the new frontier lies inside it.
    have inside : ∀ r, (step^[count + 1] s).has r = true → reached.has r = true := by
      intro r member
      rw [iterate_next start] at member
      rw [← same, has_union, Bool.or_eq_true]
      exact Or.inr member
    apply known.stop
    intro k later allowed q arrives
    exact known.within along ⟨enough, succ_le_of_space space⟩ inside k later q arrives
  | case5 count frontier reached space next moves differs enough grows ih =>
    have grown := known.next ⟨enough, succ_le_of_space space⟩
    rw [iterate_next start] at grown
    exact ih (iterate_next start) grown
  | case6 count frontier reached space next moves differs few ih =>
    exact ih (iterate_next start) (known.nextBelow (Nat.lt_of_not_le few))

theorem has_afterRepeats (along : Along step leads) (q : Nat) :
    (afterRepeats step b s).has q = true ↔ ∃ k, b.allow k ∧ (step^[k] s).has q = true := by
  have initial : HoldsUpTo step b s 0 (if b.min = 0 then s else empty) := by
    intro r
    split
    next optional =>
      constructor
      · intro member
        exact ⟨0, Nat.le_refl 0, ⟨by omega, fun m _ => Nat.zero_le m⟩, member⟩
      · rintro ⟨k, le, -, arrives⟩
        obtain rfl := Nat.le_zero.mp le
        exact arrives
    next required =>
      rw [has_empty]
      constructor
      · intro member
        exact absurd member Bool.false_ne_true
      · rintro ⟨k, le, allowed, -⟩
        have enough : b.min ≤ k := allowed.1
        omega
  exact holds_repeatFrom along s rfl initial q

end TrustSchema.Positions
