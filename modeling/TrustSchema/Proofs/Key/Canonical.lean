import TrustSchema.Proofs.Key.Classification

/-!
The octets of a key are a canonical form: they depend on the contents of the outer SEQUENCE only,
they are decoded as the same key again, and no other octets of that key are as short.
-/

namespace TrustSchema.Key

open Ber

theorem outerSequence_encodeElement {contents : Bytes}
    (bounded : contents.length < 256 ^ maxLengthOctets) :
    OuterSequence (encodeElement Tag.sequence contents) contents :=
  (outerSequence_iff _ _).mpr (isElement_encodeElement readable_sequence bounded)

theorem OuterSequence.encodeElement_inj {raw other a b : Bytes} (outerA : OuterSequence raw a)
    (outerB : OuterSequence other b) :
    encodeElement Tag.sequence a = encodeElement Tag.sequence b ↔ a = b := by
  constructor
  · intro same
    have written := outerSequence_encodeElement outerA.bounded
    rw [same] at written
    exact written.unique (outerSequence_encodeElement outerB.bounded)
  · rintro rfl
    rfl

/-- Octets of a SEQUENCE are no shorter than those written for its contents, and of the same size
only when they are those. -/
theorem OuterSequence.encodeElement_shortest {raw contents : Bytes}
    (outer : OuterSequence raw contents) :
    (encodeElement Tag.sequence contents).length ≤ raw.length ∧
      ((encodeElement Tag.sequence contents).length = raw.length →
        raw = encodeElement Tag.sequence contents) := by
  obtain ⟨form, stated, rfl⟩ := outer
  obtain ⟨least, unique⟩ := encodeLength_shortest stated
  have written : encodeElement Tag.sequence contents =
      0x30 :: (encodeLength contents.length ++ contents) := rfl
  -- Identifier and contents are the same on both sides; only the forms of the length differ.
  rw [written, List.length_cons, List.length_cons, List.length_append, List.length_append]
  constructor
  · omega
  · intro size
    rw [unique (by omega)]

theorem exists_contents_of_decode {raw : Bytes} {key : Blob} (decoded : Blob.decode raw = .ok key) :
    ∃ contents, OuterSequence raw contents ∧ key.encode = encodeElement Tag.sequence contents := by
  obtain ⟨contents, fields, outer, -, -, written⟩ := (decode_ok_iff raw key).mp decoded
  exact ⟨contents, outer, written⟩

theorem decode_encode {raw : Bytes} {key : Blob} (decoded : Blob.decode raw = .ok key) :
    Blob.decode key.encode = .ok key := by
  obtain ⟨contents, fields, outer, split, rsa, written⟩ := (decode_ok_iff raw key).mp decoded
  have again := outerSequence_encodeElement outer.bounded
  rw [← written] at again
  exact (decode_ok_iff key.encode key).mpr ⟨contents, fields, again, split, rsa, written⟩

/-- Two keys are the same exactly when the contents of their outer SEQUENCEs are, in whatever form
the lengths are stated. The octets of a key are decoded as that key, and among all octets that are
they are the only shortest ones. -/
theorem encode_canonical {raw₁ raw₂ : Bytes} {key₁ key₂ : Blob}
    (decoded₁ : Blob.decode raw₁ = .ok key₁) (decoded₂ : Blob.decode raw₂ = .ok key₂) :
    (∃ contents₁ contents₂, OuterSequence raw₁ contents₁ ∧ OuterSequence raw₂ contents₂ ∧
      (key₁ = key₂ ↔ contents₁ = contents₂)) ∧
    Blob.decode key₁.encode = .ok key₁ ∧
    (∀ raw, Blob.decode raw = .ok key₁ →
      key₁.encode.length ≤ raw.length ∧
        (key₁.encode.length = raw.length → raw = key₁.encode)) := by
  refine ⟨?_, decode_encode decoded₁, fun raw decoded => ?_⟩
  · obtain ⟨contents₁, outer₁, written₁⟩ := exists_contents_of_decode decoded₁
    obtain ⟨contents₂, outer₂, written₂⟩ := exists_contents_of_decode decoded₂
    refine ⟨contents₁, contents₂, outer₁, outer₂, ?_⟩
    rw [← outer₁.encodeElement_inj outer₂, ← written₁, ← written₂]
    exact ⟨congrArg Blob.encode, congrArg Blob.mk⟩
  · obtain ⟨contents, outer, written⟩ := exists_contents_of_decode decoded
    rw [written]
    exact outer.encodeElement_shortest

/-- A key of 24 bits. -/
def smallKey : Bytes :=
  [0x30, 0x0D, 0x06, 0x09, 0x2A, 0x86, 0x48, 0x86, 0xF7, 0x0D, 0x01, 0x01, 0x01, 0x05, 0x00,
    0x03, 0x0B, 0x00, 0x30, 0x08, 0x02, 0x03, 0x00, 0xC3, 0x5B, 0x02, 0x01, 0x03]

theorem encode_canonical_smallKey :
    ∃ key, Blob.decode ([0x30, 0x82, 0x00, 0x1C] ++ smallKey) = .ok key ∧
      Blob.decode ([0x30, 0x81, 0x1C] ++ smallKey) = .ok key ∧
      Blob.decode key.encode = .ok key := by
  have padded : Blob.decode ([0x30, 0x82, 0x00, 0x1C] ++ smallKey) =
      .ok ⟨[0x30, 0x1C] ++ smallKey⟩ := by cbv
  have long : Blob.decode ([0x30, 0x81, 0x1C] ++ smallKey) =
      .ok ⟨[0x30, 0x1C] ++ smallKey⟩ := by cbv
  exact ⟨_, padded, long, (encode_canonical padded long).2.1⟩

end TrustSchema.Key
