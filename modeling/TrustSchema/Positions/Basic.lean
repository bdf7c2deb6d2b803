/-!
Sets of positions in a sequence of `n` items. Position `p` stands before item `p`, and position `n`
after the last one. A set is a bit vector, so that sets are equal when they have the same members.
-/

namespace TrustSchema

/-- A set of positions 0, …, n. -/
abbrev Positions (n : Nat) := BitVec (n + 1)

namespace Positions

variable {n : Nat}

/-- Whether a position is in a set. -/
def has (s : Positions n) (p : Nat) : Bool :=
  s.getLsbD p

/-- No position. -/
def empty : Positions n := 0#(n + 1)

/-- Every position. -/
def all : Positions n := BitVec.allOnes (n + 1)

/-- The position before the first item. -/
def first : Positions n := 1#(n + 1)

/-- The positions that are in one set or the other. -/
def union (s t : Positions n) : Positions n := s ||| t

/-- The positions that are in both sets. -/
def inter (s t : Positions n) : Positions n := s &&& t

def isEmpty (s : Positions n) : Bool := s == empty

/-- The positions after the items that lie directly after a position of the set and are accepted.
Item `i` is accepted if position `i` is in `accepted`. -/
def pass (accepted s : Positions n) : Positions n :=
  (s &&& accepted) <<< 1

/-- The set whose members are the places of `true` in a list. -/
def ofBits (bits : List Bool) : Positions n :=
  (BitVec.ofBoolListLE bits).setWidth (n + 1)

theorem ext {s t : Positions n} (same : ∀ p, s.has p = t.has p) : s = t :=
  BitVec.eq_of_getLsbD_eq fun p _ => same p

@[simp] theorem has_empty (p : Nat) : (empty : Positions n).has p = false := by
  simp [has, empty]

@[simp] theorem has_all (p : Nat) : (all : Positions n).has p = decide (p < n + 1) := by
  simp [has, all]

@[simp] theorem has_first (p : Nat) : (first : Positions n).has p = decide (p = 0) := by
  simp [has, first, BitVec.getLsbD_one]

@[simp] theorem has_union (s t : Positions n) (p : Nat) :
    (s.union t).has p = (s.has p || t.has p) := by
  simp [has, union]

@[simp] theorem has_inter (s t : Positions n) (p : Nat) :
    (s.inter t).has p = (s.has p && t.has p) := by
  simp [has, inter]

theorem lt_of_has {s : Positions n} {p : Nat} (member : s.has p = true) : p < n + 1 :=
  BitVec.lt_of_getLsbD member

theorem has_pass (accepted s : Positions n) (p : Nat) :
    (pass accepted s).has p =
      (decide (p < n + 1) && decide (0 < p) && (s.has (p - 1) && accepted.has (p - 1))) := by
  cases p <;> simp [has, pass, BitVec.getLsbD_shiftLeft]

theorem has_ofBits (bits : List Bool) (p : Nat) :
    (ofBits bits : Positions n).has p = (decide (p < n + 1) && bits.getD p false) := by
  simp [has, ofBits, BitVec.getLsbD_setWidth, BitVec.getLsbD_ofBoolListLE]

/-- The positions after the items that a test accepts. -/
theorem has_pass_map_iff {β : Type} (items : List β) (accepts : β → Bool)
    (s : Positions items.length) (q : Nat) :
    (pass (ofBits (items.map accepts)) s).has q = true ↔
      ∃ p, s.has p = true ∧ q = p + 1 ∧ ∃ item, items[p]? = some item ∧ accepts item = true := by
  rw [has_pass, has_ofBits]
  simp only [Bool.and_eq_true, decide_eq_true_eq, List.getD_eq_getElem?_getD, List.getElem?_map]
  constructor
  · rintro ⟨⟨bound, positive⟩, member, inside, accepted⟩
    refine ⟨q - 1, member, (Nat.sub_add_cancel positive).symm, ?_⟩
    cases found : items[q - 1]? with
    | none => simp [found] at accepted
    | some item =>
      rw [found, Option.map_some, Option.getD_some] at accepted
      exact ⟨item, rfl, accepted⟩
  · rintro ⟨p, member, rfl, item, found, accepted⟩
    obtain ⟨bound, -⟩ := List.getElem?_eq_some_iff.mp found
    rw [Nat.add_sub_cancel, found, Option.map_some, Option.getD_some]
    exact ⟨⟨by omega, Nat.succ_pos p⟩, member, by omega, accepted⟩

end Positions

end TrustSchema
