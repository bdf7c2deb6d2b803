import TrustSchema.Proofs.Key.Classification

/-!
What follows the identifier in an AlgorithmIdentifier. The fields of a key are walked over, but not
what is inside the first of them: after the identifier of RSA encryption any octets are accepted,
and they need not be elements.
-/

namespace TrustSchema.Key

open Ber

/-- The first field of a key is a SEQUENCE with these contents, and its other fields are
well-formed. -/
def AlgorithmContents (raw algorithm : Bytes) : Prop :=
  ∃ contents first rest, OuterSequence raw contents ∧ FieldsOf contents (first :: rest) ∧
    IsElement first Tag.sequence algorithm

/-- All that is inside the AlgorithmIdentifier of a key, once it is decoded, is well-formed. -/
def ChecksParameters (raw : Bytes) : Prop :=
  ∀ key algorithm, Blob.decode raw = .ok key → AlgorithmContents raw algorithm →
    ∃ fields, FieldsOf algorithm fields

/-- The octets that stand before and after the contents of an AlgorithmIdentifier keep their place
around any others of that length. -/
def Frames (before after : Bytes) (size : Nat) : Prop :=
  ∀ algorithm : Bytes, algorithm.length = size →
    AlgorithmContents (before ++ algorithm ++ after) algorithm

theorem AlgorithmContents.frames {raw algorithm : Bytes}
    (stated : AlgorithmContents raw algorithm) :
    ∃ before after, raw = before ++ algorithm ++ after ∧ Frames before after algorithm.length := by
  obtain ⟨_, _, rest, ⟨outer, outerLength, rfl⟩, ⟨rfl, wellFormed⟩, element⟩ := stated
  obtain ⟨-, form, length, rfl⟩ := (isElement_iff _ _ _).mp element
  refine ⟨0x30 :: (outer ++ (Tag.sequence.encode ++ form)), rest.flatten, by simp, ?_⟩
  intro other size
  -- Neither of the two lengths that are stated changes.
  have field : IsElement (Tag.sequence.encode ++ form ++ other) Tag.sequence other := by
    rw [isElement_iff, size]
    exact ⟨readable_sequence, form, length, rfl⟩
  have same : ((Tag.sequence.encode ++ form ++ other) :: rest).flatten.length =
      ((Tag.sequence.encode ++ form ++ algorithm) :: rest).flatten.length := by
    simp only [List.flatten_cons, List.length_append, size]
  rw [← same] at outerLength
  refine ⟨_, _, rest, ⟨outer, outerLength, by simp⟩, ⟨rfl, ?_⟩, field⟩
  obtain ⟨-, others⟩ := List.forall_mem_cons.mp wellFormed
  exact List.forall_mem_cons.mpr ⟨⟨_, _, field⟩, others⟩

theorem AlgorithmContents.unique {raw a b : Bytes} (statedA : AlgorithmContents raw a)
    (statedB : AlgorithmContents raw b) : a = b := by
  obtain ⟨_, first, rest, outer, ⟨whole, -⟩, element⟩ := statedA
  obtain ⟨_, first', rest', outer', ⟨whole', -⟩, element'⟩ := statedB
  obtain rfl := outer.unique outer'
  exact (element.unique element' (whole.symm.trans whole')).2.1

/-- Of the algorithm of a key, only the identifier decides whether the key is decoded. -/
theorem exists_decode_iff (raw : Bytes) :
    (∃ key, Blob.decode raw = .ok key) ↔ ∃ identifier parameters,
      IsElement identifier Tag.objectIdentifier rsaOctets ∧
        AlgorithmContents raw (identifier ++ parameters) := by
  simp only [decode_ok_iff]
  constructor
  · rintro ⟨key, contents, _, outer, split, ⟨element, ⟨identifier⟩⟩, -⟩
    exact ⟨_, _, identifier, contents, _, _, outer, split, element⟩
  · rintro ⟨_, _, identifier, contents, first, rest, outer, split, element⟩
    exact ⟨⟨encodeElement Tag.sequence contents⟩, contents, _, outer, split,
      ⟨element, ⟨identifier⟩⟩, rfl⟩

/-- Decoding checks the parameters of no key: a key is decoded for its identifier alone, so that all
in its algorithm is well-formed only if the octets after the identifier are, and any other octets of
their length may stand there. -/
theorem decode_parameters (raw : Bytes) :
    ((∃ key, Blob.decode raw = .ok key) ↔ ∃ identifier parameters,
      IsElement identifier Tag.objectIdentifier rsaOctets ∧
        AlgorithmContents raw (identifier ++ parameters)) ∧
    (ChecksParameters raw ↔ ∀ identifier parameters,
      IsElement identifier Tag.objectIdentifier rsaOctets →
        AlgorithmContents raw (identifier ++ parameters) → ∃ fields, FieldsOf parameters fields) ∧
    ∀ key, Blob.decode raw = .ok key → ∃ before identifier parameters after,
      raw = before ++ (identifier ++ parameters) ++ after ∧
      IsElement identifier Tag.objectIdentifier rsaOctets ∧
      ∀ other : Bytes, other.length = parameters.length →
        AlgorithmContents (before ++ (identifier ++ other) ++ after) (identifier ++ other) ∧
        ∃ key, Blob.decode (before ++ (identifier ++ other) ++ after) = .ok key := by
  refine ⟨exists_decode_iff raw, ?_, ?_⟩
  · constructor
    · intro checked identifier parameters element stated
      obtain ⟨key, decoded⟩ := (exists_decode_iff raw).mpr ⟨_, _, element, stated⟩
      exact (exists_fieldsOf_append_iff element parameters).mp (checked key _ decoded stated)
    · intro wellFormed key algorithm decoded stated
      obtain ⟨identifier, parameters, element, stated'⟩ := (exists_decode_iff raw).mp ⟨key, decoded⟩
      rw [stated.unique stated', exists_fieldsOf_append_iff element]
      exact wellFormed identifier parameters element stated'
  · intro key decoded
    obtain ⟨identifier, parameters, element, stated⟩ := (exists_decode_iff raw).mp ⟨key, decoded⟩
    -- Other octets of the same length change neither the lengths nor the fields around them.
    obtain ⟨before, after, whole, frames⟩ := stated.frames
    refine ⟨before, identifier, parameters, after, whole, element, fun other size => ?_⟩
    have placed := frames (identifier ++ other)
      (by rw [List.length_append, size, List.length_append])
    exact ⟨placed, (exists_decode_iff _).mpr ⟨identifier, other, element, placed⟩⟩

/-- The identifier of RSA encryption with parameters of no definite length. -/
def openAlgorithm : Bytes :=
  [0x06, 0x09] ++ rsaOctets ++ [0x05, 0x80]

/-- The field of the key itself, a BIT STRING. -/
def openBits : Bytes :=
  [0x03, 0x0B, 0x00, 0x30, 0x08, 0x02, 0x03, 0x00, 0xC3, 0x5B, 0x02, 0x01, 0x03]

/-- A key with such parameters. -/
def openKey : Bytes :=
  [0x30, 0x1C, 0x30, 0x0D] ++ openAlgorithm ++ openBits

theorem decode_openKey :
    Blob.decode openKey = .ok ⟨openKey⟩ ∧ AlgorithmContents openKey openAlgorithm ∧
      ¬∃ fields, FieldsOf openAlgorithm fields := by
  have algorithm : IsElement ([0x30, 0x0D] ++ openAlgorithm) Tag.sequence openAlgorithm :=
    ⟨_, _, by cbv, by cbv⟩
  have bits : IsElement openBits ⟨.universal, false, 3⟩ (openBits.drop 2) :=
    ⟨_, _, by cbv, by cbv⟩
  have outer : OuterSequence openKey (openKey.drop 2) :=
    (outerSequence_iff _ _).mpr ⟨_, _, by cbv, by cbv⟩
  have fields : FieldsOf (openKey.drop 2) [[0x30, 0x0D] ++ openAlgorithm, openBits] :=
    ⟨by decide, List.forall_mem_cons.mpr
      ⟨⟨_, _, algorithm⟩, List.forall_mem_singleton.mpr ⟨_, _, bits⟩⟩⟩
  refine ⟨by cbv, ⟨_, _, _, outer, fields, algorithm⟩, ?_⟩
  -- The walk that the fields of the key are put through stops at the parameters.
  have stuck : walk ⟨0, openAlgorithm⟩ = .error (.indefiniteLength 11) := by cbv
  rw [← walk_ok_iff ⟨0, openAlgorithm⟩, stuck]
  intro passed
  cases passed

end TrustSchema.Key
