import TrustSchema.Positions.Basic
import TrustSchema.Positions.Bounds

/-!
Repeating a step on sets of positions. A step takes a set to the positions that one repetition can
lead to; repeating it within bounds gives the positions that an allowed number of repetitions can
lead to. The loop stops early where further repetitions add nothing, so that the bounds themselves
do not cost time.
-/

namespace TrustSchema.Positions

variable {n : Nat}

/-- The positions that a repetition reaches, and how many steps were taken to find them. -/
structure Repetition (n : Nat) where
  reached : Positions n
  steps : Nat
  deriving DecidableEq

theorem toNat_le_all (s : Positions n) : s.toNat ≤ (all : Positions n).toNat := by
  rw [all, BitVec.toNat_allOnes]
  exact Nat.le_sub_one_of_lt s.isLt

theorem toNat_lt_union {s t : Positions n} (grown : s.union t ≠ s) :
    s.toNat < (s.union t).toNat := by
  have le : s.toNat ≤ (s.union t).toNat := by
    simp only [union, BitVec.toNat_or]
    exact Nat.left_le_or
  have ne : s.toNat ≠ (s.union t).toNat := fun same => grown (BitVec.eq_of_toNat_eq same.symm)
  omega

/-- Goes on with a repetition after `count` steps, which led to `frontier`; `reached` holds the
positions that an allowed number of steps up to there led to. It stops when the bounds allow no
further step, when a step leads nowhere, when it leads to where the one before it led, and when it
leads to no position that is not reached yet. -/
def repeatFrom (step : Positions n → Positions n) (b : Bounds) (count : Nat)
    (frontier reached : Positions n) : Repetition n :=
  if b.max.any (· ≤ count) then ⟨reached, count⟩
  else
    let next := step frontier
    if next.isEmpty then ⟨reached, count + 1⟩
    else if next = frontier then ⟨reached.union next, count + 1⟩
    else if b.min ≤ count + 1 then
      if reached.union next = reached then ⟨reached, count + 1⟩
      else repeatFrom step b (count + 1) next (reached.union next)
    else repeatFrom step b (count + 1) next reached
termination_by (b.min - count) + ((all : Positions n).toNat - reached.toNat)
decreasing_by
  · rename_i grows
    have grown := toNat_lt_union grows
    have bound := toNat_le_all (reached.union (step frontier))
    change reached.toNat < (reached.union (step frontier)).toNat at grown
    omega
  · omega

/-- Repeats a step from a set of positions within bounds. -/
def repeated (step : Positions n → Positions n) (b : Bounds) (s : Positions n) : Repetition n :=
  repeatFrom step b 0 s (if b.min = 0 then s else empty)

/-- The positions that an allowed number of steps leads to. -/
def afterRepeats (step : Positions n → Positions n) (b : Bounds) (s : Positions n) : Positions n :=
  (repeated step b s).reached

end TrustSchema.Positions
