/-!
Bounds on a number of repetitions: a least number, and a greatest one unless there is no limit.
-/

namespace TrustSchema

/-- How often something may repeat. -/
structure Bounds where
  min : Nat
  /-- No greatest number means no limit. -/
  max : Option Nat
  min_le_max : ∀ m ∈ max, min ≤ m := by simp
  deriving DecidableEq

namespace Bounds

/-- Exactly `n` times. -/
def exactly (n : Nat) : Bounds := { min := n, max := some n }

/-- `n` times or more. -/
def atLeast (n : Nat) : Bounds := { min := n, max := none }

/-- At most `n` times. -/
def atMost (n : Nat) : Bounds := { min := 0, max := some n }

/-- At least `lo` and at most `hi` times, if that is possible. -/
def between? (lo hi : Nat) : Option Bounds :=
  if h : lo ≤ hi then some { min := lo, max := some hi, min_le_max := by simpa using h } else none

/-- The bounds when more than one repetition is no different from one. -/
def atMostOnce (b : Bounds) : Bounds where
  min := Nat.min b.min 1
  max := some (Nat.min (b.max.getD 1) 1)
  min_le_max := by
    rintro m mem
    obtain rfl := Option.some.inj mem
    cases bound : b.max with
    | none => exact Nat.min_le_right _ _
    | some m =>
      exact Nat.le_min.mpr
        ⟨Nat.le_trans (Nat.min_le_left _ _) (b.min_le_max m bound), Nat.min_le_right _ _⟩

/-- Whether a number of repetitions is within bounds. -/
def allow (b : Bounds) (count : Nat) : Prop :=
  b.min ≤ count ∧ ∀ m ∈ b.max, count ≤ m

end Bounds

end TrustSchema
