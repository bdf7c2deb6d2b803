import Mathlib.Data.Set.Lattice
import Mathlib.Order.CompletePartialOrder
import TrustSchema.Proofs.Filter.Decision

/-!
How the sets of packets that filters by name cover relate to one another. A filter for a namespace
covers what the filter for its own name and the strict one cover together, the strict one covers
what lies below some component, and one namespace lies inside another exactly when its name extends
the other's.
-/

namespace TrustSchema

theorem Packet.Signs.unique {p : Packet} {a b : Name} (signsA : p.Signs a) (signsB : p.Signs b) :
    a = b := by
  rw [← signedName?_eq_some_iff] at signsA signsB
  exact Option.some.inj (signsA.symm.trans signsB)

theorem Packet.exists_signs (kind : PacketKind) (name : Name) :
    ∃ p : Packet, p.kind = kind ∧ p.Signs name := by
  cases kind with
  | data => exact ⟨⟨.data, name⟩, rfl, rfl⟩
  | interest =>
    -- Any two components will do as a signature.
    exact ⟨⟨.interest, ⟨name.components ++ [⟨[]⟩, ⟨[]⟩]⟩⟩, rfl, _, _, rfl⟩

theorem Packet.not_signs_of_short {name : Name} (short : name.size < signatureComponents)
    (signed : Name) : ¬(Packet.mk .interest name).Signs signed := by
  intro signs
  obtain ⟨a, b, whole⟩ := signs
  have size : name.size = signed.components.length + signatureComponents := by
    rw [Name.size, whole, List.length_append]
    rfl
  omega

namespace Relation

theorem relates_isPrefixOf_iff (rule name : Name) :
    isPrefixOf.Relates rule name ↔
      equal.Relates rule name ∨ isStrictPrefixOf.Relates rule name := by
  constructor
  · intro start
    by_cases same : name = rule
    · exact Or.inl same
    · exact Or.inr ⟨start, same⟩
  · intro either
    rcases either with same | ⟨start, _⟩
    · obtain rfl : name = rule := same
      exact List.prefix_rfl
    · exact start

theorem relates_isStrictPrefixOf_iff (rule name : Name) :
    isStrictPrefixOf.Relates rule name ↔ ∃ c, isPrefixOf.Relates (rule.push c) name := by
  constructor
  · rintro ⟨⟨more, whole⟩, different⟩
    cases more with
    | nil =>
      rw [List.append_nil] at whole
      exact absurd (congrArg Name.mk whole.symm) different
    | cons c more => exact ⟨c, more, by rw [Name.push, List.append_assoc]; exact whole⟩
  · rintro ⟨c, start⟩
    refine ⟨(List.prefix_append _ _).trans start, ?_⟩
    rintro rfl
    -- A name does not begin with more components than it has.
    have longer := start.length_le
    rw [Name.push, List.length_append, List.length_singleton] at longer
    omega

/-- The relations to a whole namespace hold of every name below one that they hold of. -/
theorem Relates.extend {r : Relation} (namespaces : r ≠ equal) {rule name : Name}
    (relates : r.Relates rule name) (more : List Component) :
    r.Relates rule ⟨name.components ++ more⟩ := by
  have longer : name.components <+: name.components ++ more := List.prefix_append _ _
  cases r with
  | equal => exact absurd rfl namespaces
  | isPrefixOf => exact List.IsPrefix.trans relates longer
  | isStrictPrefixOf =>
    rw [relates_isStrictPrefixOf_iff] at relates ⊢
    obtain ⟨c, start⟩ := relates
    exact ⟨c, List.IsPrefix.trans start longer⟩

end Relation

namespace Filter

variable (α : Type) [ComponentLanguage α]

/-- The packets that a filter by name covers. -/
def packetsOf (r : Relation) (rule : Name) : Set Packet :=
  {p | (relation r rule : Filter α).covers p = true}

theorem mem_packetsOf_iff (r : Relation) (rule : Name) (p : Packet) :
    p ∈ packetsOf α r rule ↔ ∃ name, p.Signs name ∧ r.Relates rule name :=
  covers_iff _ p

theorem mem_packetsOf_of_signs (r : Relation) (rule : Name) {p : Packet} {name : Name}
    (signs : p.Signs name) : p ∈ packetsOf α r rule ↔ r.Relates rule name := by
  rw [mem_packetsOf_iff]
  constructor
  · rintro ⟨other, signsOther, relates⟩
    exact signs.unique signsOther ▸ relates
  · exact fun relates => ⟨name, signs, relates⟩

theorem mem_packetsOf_data (r : Relation) (rule name : Name) :
    ⟨.data, name⟩ ∈ packetsOf α r rule ↔ r.Relates rule name :=
  mem_packetsOf_of_signs α r rule rfl

theorem mem_packetsOf_interest (r : Relation) (rule : Name) (front : List Component)
    (a b : Component) :
    ⟨.interest, ⟨front ++ [a, b]⟩⟩ ∈ packetsOf α r rule ↔ r.Relates rule ⟨front⟩ :=
  mem_packetsOf_of_signs α r rule ⟨a, b, rfl⟩

/-- The packets of one kind tell the namespaces apart. -/
theorem packetsOf_inter_subset_iff (p q : Name) (kind : PacketKind) :
    packetsOf α .isPrefixOf q ∩ {packet | packet.kind = kind} ⊆ packetsOf α .isPrefixOf p ↔
      p.isPrefixOf q = true := by
  rw [Name.isPrefixOf_iff]
  constructor
  · intro within
    -- The packet that signs the name of the inner namespace is in the outer one.
    obtain ⟨packet, sameKind, signs⟩ := Packet.exists_signs kind q
    have inner : packet ∈ packetsOf α .isPrefixOf q := by
      apply (mem_packetsOf_of_signs α _ _ signs).mpr
      exact List.prefix_rfl
    exact (mem_packetsOf_of_signs α _ _ signs).mp (within ⟨inner, sameKind⟩)
  · rintro start packet ⟨covered, -⟩
    rw [mem_packetsOf_iff] at covered ⊢
    obtain ⟨name, signs, below⟩ := covered
    exact ⟨name, signs, start.trans below⟩

theorem packetsOf_subset_iff (p q : Name) :
    packetsOf α .isPrefixOf q ⊆ packetsOf α .isPrefixOf p ↔ p.isPrefixOf q = true := by
  constructor
  · intro within
    apply (packetsOf_inter_subset_iff α p q .data).mp
    exact Set.inter_subset_left.trans within
  · intro start packet covered
    apply (packetsOf_inter_subset_iff α p q packet.kind).mpr start
    exact ⟨covered, rfl⟩

theorem packetsOf_isPrefixOf (rule : Name) :
    packetsOf α .isPrefixOf rule =
      packetsOf α .equal rule ∪ packetsOf α .isStrictPrefixOf rule := by
  ext packet
  simp only [Set.mem_union, mem_packetsOf_iff, Relation.relates_isPrefixOf_iff, and_or_left,
    exists_or]

theorem disjoint_packetsOf (rule : Name) :
    Disjoint (packetsOf α .equal rule) (packetsOf α .isStrictPrefixOf rule) := by
  rw [Set.disjoint_left]
  intro packet own strict
  obtain ⟨name, signs, same⟩ := (mem_packetsOf_iff α _ _ _).mp own
  obtain ⟨-, different⟩ := (mem_packetsOf_of_signs α _ _ signs).mp strict
  exact different same

theorem packetsOf_isStrictPrefixOf (rule : Name) :
    packetsOf α .isStrictPrefixOf rule = ⋃ c, packetsOf α .isPrefixOf (rule.push c) := by
  ext packet
  simp only [Set.mem_iUnion, mem_packetsOf_iff, Relation.relates_isStrictPrefixOf_iff]
  constructor
  · rintro ⟨name, signs, c, start⟩
    exact ⟨c, name, signs, start⟩
  · rintro ⟨c, name, signs, start⟩
    exact ⟨name, signs, c, start⟩

theorem not_mem_packetsOf_of_short (r : Relation) (rule : Name) {name : Name}
    (short : name.size < signatureComponents) : ⟨.interest, name⟩ ∉ packetsOf α r rule := by
  rw [mem_packetsOf_iff]
  rintro ⟨signed, signs, -⟩
  exact Packet.not_signs_of_short short signed signs

/-- Namespaces are ordered as their names are, whether by all packets or by those of one kind. Each
is its own name and what is strictly below it, which is what lies below its extensions by one
component. No filter by name covers an Interest without a signature, and a filter for a namespace
covers what is below anything that it covers. -/
theorem packetsOf_laws (p q : Name) :
    (packetsOf α .isPrefixOf q ⊆ packetsOf α .isPrefixOf p ↔ p.isPrefixOf q = true) ∧
    (∀ kind, packetsOf α .isPrefixOf q ∩ {packet | packet.kind = kind} ⊆ packetsOf α .isPrefixOf p ↔
      p.isPrefixOf q = true) ∧
    packetsOf α .isPrefixOf p = packetsOf α .equal p ∪ packetsOf α .isStrictPrefixOf p ∧
    Disjoint (packetsOf α .equal p) (packetsOf α .isStrictPrefixOf p) ∧
    packetsOf α .isStrictPrefixOf p = ⋃ c, packetsOf α .isPrefixOf (p.push c) ∧
    (∀ r (name : Name), name.size < 2 → ⟨.interest, name⟩ ∉ packetsOf α r p) ∧
    ∀ r, r = .isPrefixOf ∨ r = .isStrictPrefixOf →
      (∀ name more : Name, ⟨.data, name⟩ ∈ packetsOf α r p →
        ⟨.data, name ++ more⟩ ∈ packetsOf α r p) ∧
      ∀ front a b more, ⟨.interest, ⟨front ++ [a, b]⟩⟩ ∈ packetsOf α r p →
        ⟨.interest, ⟨front ++ more ++ [a, b]⟩⟩ ∈ packetsOf α r p := by
  refine ⟨packetsOf_subset_iff α p q, packetsOf_inter_subset_iff α p q, packetsOf_isPrefixOf α p,
    disjoint_packetsOf α p, packetsOf_isStrictPrefixOf α p,
    fun r name short => not_mem_packetsOf_of_short α r p short, fun r either => ?_⟩
  have namespaces : r ≠ .equal := by
    rcases either with rfl | rfl <;> decide
  constructor
  · intro name more covered
    rw [mem_packetsOf_data] at covered ⊢
    exact covered.extend namespaces more.components
  · intro front a b more covered
    rw [mem_packetsOf_interest] at covered ⊢
    exact covered.extend namespaces more

end Filter

end TrustSchema
