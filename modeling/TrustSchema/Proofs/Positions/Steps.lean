import Mathlib.Data.Finset.Card
import TrustSchema.Proofs.Positions.Repetition

/-!
How many steps a repetition takes. The bounds do not matter: a step either moves every position
forward, so that the frontier leaves the sequence, or keeps every position, so that the frontier
grows until it stands still. Either way there is no room for more rounds than there are positions.
-/

namespace TrustSchema.Positions

variable {n : Nat}

/-- The members of a set, as numbers. -/
def members (s : Positions n) : Finset Nat :=
  (Finset.range (n + 1)).filter fun p => s.has p = true

theorem mem_members {s : Positions n} {p : Nat} : p ∈ s.members ↔ s.has p = true := by
  rw [members, Finset.mem_filter, Finset.mem_range, and_iff_right_iff_imp]
  exact lt_of_has

theorem card_members_le (s : Positions n) : s.members.card ≤ n + 1 := by
  have filtered := Finset.card_filter_le (Finset.range (n + 1)) fun p => s.has p = true
  rwa [Finset.card_range] at filtered

theorem card_members_lt {s t : Positions n} (within : ∀ p, s.has p = true → t.has p = true)
    (differs : t ≠ s) : s.members.card < t.members.card := by
  apply Finset.card_lt_card
  refine Finset.ssubset_iff_subset_ne.mpr ⟨?_, ?_⟩
  · intro p member
    exact mem_members.mpr (within p (mem_members.mp member))
  · intro same
    apply differs
    apply ext
    intro p
    rw [Bool.eq_iff_iff, ← mem_members, ← mem_members, same]

theorem exists_has_of_ne_empty {s : Positions n} (occupied : s ≠ empty) : ∃ p, s.has p = true := by
  rw [← isEmpty_eq_false_iff, Bool.eq_false_iff, ne_eq, isEmpty_iff]
  exact occupied

variable {step : Positions n → Positions n} {leads : Nat → Nat → Prop} {b : Bounds}
  {s frontier reached : Positions n} {count : Nat}

/-- If every round that does not end the loop keeps what leaves room for another one, the loop takes
at most one step more than there are items. -/
theorem steps_repeatFrom_le (Room : Nat → Positions n → Prop)
    (bounded : ∀ count frontier, Room count frontier → count ≤ n)
    (kept : ∀ count frontier, Room count frontier → step frontier ≠ empty →
      step frontier ≠ frontier → Room (count + 1) (step frontier))
    (room : Room count frontier) : (repeatFrom step b count frontier reached).steps ≤ n + 1 := by
  fun_induction repeatFrom step b count frontier reached with
  | case1 count frontier reached full => exact Nat.le_succ_of_le (bounded count frontier room)
  | case2 count frontier reached => exact Nat.succ_le_succ (bounded count frontier room)
  | case3 count frontier reached => exact Nat.succ_le_succ (bounded count frontier room)
  | case4 count frontier reached => exact Nat.succ_le_succ (bounded count frontier room)
  | case5 count frontier reached _ next moves differs _ _ ih =>
    exact ih (kept count frontier room (fun none => moves ((isEmpty_iff next).mpr none)) differs)
  | case6 count frontier reached _ next moves differs _ ih =>
    exact ih (kept count frontier room (fun none => moves ((isEmpty_iff next).mpr none)) differs)

/-- As many steps as were taken, every position of the frontier is from the beginning. -/
def Ahead (count : Nat) (frontier : Positions n) : Prop :=
  count ≤ n ∧ ∀ p, frontier.has p = true → count ≤ p

theorem Ahead.next (along : Along step leads) (forward : ∀ p q, leads p q → p < q)
    (ahead : Ahead count frontier) (moves : step frontier ≠ empty) :
    Ahead (count + 1) (step frontier) := by
  have further (q : Nat) (arrives : (step frontier).has q = true) : count + 1 ≤ q := by
    obtain ⟨p, member, edge⟩ := (along frontier q).mp arrives
    exact Nat.succ_le_of_lt (Nat.lt_of_le_of_lt (ahead.2 p member) (forward p q edge))
  obtain ⟨q, arrives⟩ := exists_has_of_ne_empty moves
  exact ⟨Nat.le_trans (further q arrives) (Nat.le_of_lt_succ (lt_of_has arrives)), further⟩

/-- The frontier, if it is not empty, has more positions than steps were taken. -/
def Grown (count : Nat) (frontier : Positions n) : Prop :=
  count ≤ n ∧ (frontier ≠ empty → count < frontier.members.card)

theorem grown_zero (s : Positions n) : Grown 0 s := by
  refine ⟨Nat.zero_le n, fun occupied => ?_⟩
  obtain ⟨p, member⟩ := exists_has_of_ne_empty occupied
  exact Finset.card_pos.mpr ⟨p, mem_members.mpr member⟩

theorem Grown.next (along : Along step leads) (still : ∀ p ≤ n, leads p p)
    (grown : Grown count frontier) (moves : step frontier ≠ empty)
    (differs : step frontier ≠ frontier) : Grown (count + 1) (step frontier) := by
  have occupied : frontier ≠ empty := by
    rintro rfl
    exact moves (along_empty along)
  have within (p : Nat) (member : frontier.has p = true) : (step frontier).has p = true :=
    (along frontier p).mpr ⟨p, member, still p (Nat.le_of_lt_succ (lt_of_has member))⟩
  have many := grown.2 occupied
  have more := card_members_lt within differs
  have all := card_members_le (step frontier)
  exact ⟨by omega, fun _ => by omega⟩

/-- A step that moves every position forward, or keeps every position, is taken at most once more
often than there are items, whatever the bounds are. -/
theorem steps_repeated_le (along : Along step leads)
    (either : (∀ p q, leads p q → p < q) ∨ ∀ p ≤ n, leads p p) (b : Bounds) (s : Positions n) :
    (repeated step b s).steps ≤ n + 1 := by
  rw [repeated]
  rcases either with forward | still
  · exact steps_repeatFrom_le Ahead (fun _ _ ahead => ahead.1)
      (fun _ _ ahead moves _ => ahead.next along forward moves)
      ⟨Nat.zero_le n, fun p _ => Nat.zero_le p⟩
  · exact steps_repeatFrom_le Grown (fun _ _ grown => grown.1)
      (fun _ _ grown moves differs => grown.next along still moves differs) (grown_zero s)

end TrustSchema.Positions
