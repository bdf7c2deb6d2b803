import TrustSchema.Proofs.Pattern.Matching
import TrustSchema.Proofs.Positions.Steps

/-!
Following one element through a name. However often the element may repeat, its repetitions lead
exactly where some allowed number of them leads, and are followed in no more steps than the name has
positions.
-/

namespace TrustSchema.Pattern

open Positions

variable {α : Type} [ComponentLanguage α]

/-- One repetition of an element leads from a member of the set to `q`: a test to the position after
a component that passes it, and a group to where its elements lead. -/
def Node.LeadsTo (texts : List Text) (node : Node α) (s : Positions texts.length) (q : Nat) :
    Prop :=
  match node with
  | .one test _ => ∃ p text, s.has p = true ∧ texts[p]? = some text ∧ test.Admits text ∧ q = p + 1
  | .group inner _ => (advanceAll texts inner s).has q = true

theorem Node.has_step_iff (texts : List Text) (node : Node α) (s : Positions texts.length)
    (q : Nat) : (node.step texts s).has q = true ↔ node.LeadsTo texts s q := by
  cases node with
  | group inner bounds => rfl
  | one test bounds =>
    have moved := along_pass texts test s q
    simp only [spans_single_iff] at moved
    rw [step, moved, LeadsTo]
    constructor
    · rintro ⟨p, member, next, text, found, admitted⟩
      exact ⟨p, text, member, found, admitted, next⟩
    · rintro ⟨p, text, member, found, admitted, next⟩
      exact ⟨p, member, next, text, found, admitted⟩

/-- One repetition of an element takes components, unless it can do without any; then it leads from
every position to itself. -/
theorem Node.forward_or_still (texts : List Text) (node : Node α) :
    (∀ p q, Spans texts node.Once p q → p < q) ∨
      ∀ p ≤ texts.length, Spans texts node.Once p p := by
  have none (p : Nat) : texts.extract p p = [] := by simp
  by_cases nullable : node.Once []
  · right
    intro p inside
    exact ⟨Nat.le_refl p, inside, (none p).symm ▸ nullable⟩
  · left
    rintro p q ⟨ordered, -, word⟩
    apply Nat.lt_of_le_of_ne ordered
    rintro rfl
    exact nullable (none p ▸ word)

/-- An element leads to the positions that `k` repetitions lead to, for any `k` within its bounds,
and to no others. All of them are positions of the name, and they are found in at most one step more
than the name has components, however small or large the bounds are. -/
theorem advance_exact (texts : List Text) (node : Node α) (s : Positions texts.length) :
    (∀ t q, (node.step texts t).has q = true ↔ node.LeadsTo texts t q) ∧
    (∀ q, (node.advance texts s).has q = true ↔
      ∃ k, node.bounds.allow k ∧ ((node.step texts)^[k] s).has q = true) ∧
    (∀ q, (node.advance texts s).has q = true → q ≤ texts.length) ∧
    node.advance texts s = (repeated (node.step texts) node.bounds s).reached ∧
    (repeated (node.step texts) node.bounds s).steps ≤ texts.length + 1 := by
  have along := along_step texts node
  refine ⟨node.has_step_iff texts, fun q => ?_, fun q => le_length_of_has, node.advance_eq texts s,
    steps_repeated_le along (node.forward_or_still texts) node.bounds s⟩
  rw [Node.advance_eq, has_afterRepeats along]

end TrustSchema.Pattern
