import Mathlib.Data.List.Basic
import TrustSchema.Filter.Basic

/-!
What a decision about a packet says: which names stand for a packet, which packets a filter covers,
which filter is the first, and when a policy lets a packet pass.
-/

namespace TrustSchema

/-- The name that a packet is judged by: its own one, which an Interest continues with two
components. -/
def Packet.Signs (p : Packet) (name : Name) : Prop :=
  match p.kind with
  | .data => p.name = name
  | .interest => ∃ a b, p.name.components = name.components ++ [a, b]

/-- How the name of a rule stands to the names that it covers. -/
def Relation.Relates : Relation → Name → Name → Prop
  | equal, rule, name => name = rule
  | isPrefixOf, rule, name => rule.components <+: name.components
  | isStrictPrefixOf, rule, name => rule.components <+: name.components ∧ name ≠ rule

theorem Name.dropEnd?_eq_some_iff (n name : Name) (count : Nat) :
    n.dropEnd? count = some name ↔
      ∃ last, last.length = count ∧ n.components = name.components ++ last := by
  rw [dropEnd?]
  constructor
  · intro dropped
    split at dropped
    next long =>
      cases dropped
      have kept : n.size - count ≤ n.components.length := Nat.sub_le _ _
      refine ⟨n.components.drop (n.size - count), ?_, (List.take_append_drop _ _).symm⟩
      rw [List.length_drop]
      exact Nat.sub_sub_self long
    next => cases dropped
  · rintro ⟨last, rfl, whole⟩
    have length : n.size = name.components.length + last.length := by
      rw [size, whole, List.length_append]
    rw [if_pos (by omega), length, Nat.add_sub_cancel_right, take, whole, List.take_left]

theorem Packet.signedName?_eq_some_iff (p : Packet) (name : Name) :
    p.signedName? = some name ↔ p.Signs name := by
  rw [signedName?, Signs]
  cases p.kind with
  | data => exact Option.some_inj
  | interest =>
    refine (Name.dropEnd?_eq_some_iff p.name name signatureComponents).trans ?_
    constructor
    · rintro ⟨last, two, whole⟩
      obtain ⟨a, b, rfl⟩ := List.length_eq_two.mp two
      exact ⟨a, b, whole⟩
    · rintro ⟨a, b, whole⟩
      exact ⟨[a, b], rfl, whole⟩

theorem Relation.holds_iff (r : Relation) (rule name : Name) :
    r.holds rule name = true ↔ r.Relates rule name := by
  cases r with
  | equal =>
    rw [holds, beq_iff_eq]
    exact eq_comm
  | isPrefixOf => exact Name.isPrefixOf_iff rule name
  | isStrictPrefixOf =>
    rw [holds, Bool.and_eq_true, decide_eq_true_eq, Name.isPrefixOf_iff]
    constructor
    · rintro ⟨shorter, start⟩
      refine ⟨start, ?_⟩
      rintro rfl
      exact Nat.lt_irrefl _ shorter
    · rintro ⟨start, different⟩
      refine ⟨Nat.lt_of_le_of_ne start.length_le fun size => different ?_, start⟩
      -- A beginning as long as the whole is the whole.
      have same : rule.components = name.components := start.eq_of_length size
      rw [Name.mk.injEq, same]

variable {α : Type} [ComponentLanguage α]

namespace Filter

/-- A filter covers a packet by the name that the packet signs. -/
def Covers (f : Filter α) (p : Packet) : Prop :=
  ∃ name, p.Signs name ∧
    match f with
    | relation r rule => r.Relates rule name
    | pattern q => q.matchesName name = true

theorem covers_iff (f : Filter α) (p : Packet) : f.covers p = true ↔ f.Covers p := by
  rw [covers, Option.any_eq_true]
  constructor
  · rintro ⟨name, signed, covered⟩
    refine ⟨name, (p.signedName?_eq_some_iff name).mp signed, ?_⟩
    cases f with
    | relation r rule => exact (r.holds_iff rule name).mp covered
    | pattern q => exact covered
  · rintro ⟨name, signed, covered⟩
    refine ⟨name, (p.signedName?_eq_some_iff name).mpr signed, ?_⟩
    cases f with
    | relation r rule => exact (r.holds_iff rule name).mpr covered
    | pattern q => exact covered

end Filter

namespace Policy

theorem firstMatch?_eq_some_iff (policy : Policy α) (p : Packet) (i : Nat) :
    policy.firstMatch? p = some i ↔
      (∃ f, policy.filters[i]? = some f ∧ f.Covers p) ∧
        ∀ j < i, ∀ f, policy.filters[j]? = some f → ¬f.Covers p := by
  rw [firstMatch?, List.findIdx?_eq_some_iff_getElem]
  constructor
  · rintro ⟨inside, covered, least⟩
    refine ⟨⟨_, List.getElem?_eq_getElem inside, (Filter.covers_iff _ p).mp covered⟩, ?_⟩
    intro j before f found
    obtain ⟨_, rfl⟩ := List.getElem?_eq_some_iff.mp found
    rw [← Filter.covers_iff]
    exact least j before
  · rintro ⟨⟨f, found, covered⟩, least⟩
    obtain ⟨inside, rfl⟩ := List.getElem?_eq_some_iff.mp found
    refine ⟨inside, (Filter.covers_iff _ p).mpr covered, fun j before => ?_⟩
    rw [Filter.covers_iff]
    exact least j before _ (List.getElem?_eq_getElem _)

theorem admits_iff (policy : Policy α) (p : Packet) :
    policy.admits p = true ↔ policy.filters = [] ∨ ∃ f ∈ policy.filters, f.Covers p := by
  rw [admits, Bool.or_eq_true, List.isEmpty_iff, firstMatch?, List.findIdx?_isSome,
    List.any_eq_true]
  simp only [Filter.covers_iff]

end Policy

end TrustSchema
