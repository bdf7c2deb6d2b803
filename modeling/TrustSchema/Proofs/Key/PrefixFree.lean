import TrustSchema.Proofs.Key.Canonical

/-!
Keys are prefix-free. A key that is cut short is told from a key of another algorithm, because its
outer SEQUENCE is not read at all; and whatever follows a key is counted and refused.
-/

namespace TrustSchema.Key

open Ber

theorem decode_of_readElement {raw : Bytes} {fault : DecodeError} {after : Reader}
    (failed : (Reader.ofBytes raw).readElement = (.error fault, after)) :
    Blob.decode raw = .error (.decode fault) := by
  simp only [Blob.decode, canonicalize, Reader.readExpected, failed]

theorem OuterSequence.decode_take {raw contents : Bytes} (outer : OuterSequence raw contents)
    {cut : Nat} (short : cut < raw.length) :
    ∃ fault, EndsEarly fault ∧ Blob.decode (raw.take cut) = .error (.decode fault) := by
  obtain ⟨fault, after, early, failed⟩ := ((outerSequence_iff _ _).mp outer).take short
  exact ⟨fault, early, decode_of_readElement failed⟩

theorem OuterSequence.decode_append {raw contents more : Bytes} (outer : OuterSequence raw contents)
    (added : more ≠ []) :
    Blob.decode (raw ++ more) = .error (.decode (.trailingData more.length)) := by
  have front : (Reader.ofBytes (raw ++ more)).unread = raw ++ more := rfl
  obtain ⟨place, read⟩ := Reader.readElement_of_front ((outerSequence_iff _ _).mp outer) front
  have left : more.isEmpty = false := List.isEmpty_eq_false_iff.mpr added
  simp only [Blob.decode, canonicalize, Reader.readExpected, read, if_true, Reader.finish,
    Reader.isEmpty, left, Bool.false_eq_true, if_false, Reader.remaining]

/-- No proper beginning of a key is a key, or a key of anything: it ends early. No extension of a
key is one either: it has as many octets left over as were added. -/
theorem decode_prefixFree {raw : Bytes} {key : Blob} (decoded : Blob.decode raw = .ok key) :
    (∀ cut < raw.length, ∃ fault, EndsEarly fault ∧
      Blob.decode (raw.take cut) = .error (.decode fault)) ∧
    (∀ more, more ≠ [] →
      Blob.decode (raw ++ more) = .error (.decode (.trailingData more.length))) := by
  obtain ⟨contents, outer, -⟩ := exists_contents_of_decode decoded
  exact ⟨fun cut short => outer.decode_take short, fun more added => outer.decode_append added⟩

theorem decode_prefixFree_smallKey :
    (∃ key, Blob.decode ([0x30, 0x82, 0x00, 0x1C] ++ smallKey) = .ok key) ∧
      (∃ fault, EndsEarly fault ∧
        Blob.decode (([0x30, 0x82, 0x00, 0x1C] ++ smallKey).take 3) = .error (.decode fault)) ∧
      Blob.decode ([0x30, 0x82, 0x00, 0x1C] ++ smallKey ++ [0x05, 0x00]) =
        .error (.decode (.trailingData 2)) := by
  have padded : Blob.decode ([0x30, 0x82, 0x00, 0x1C] ++ smallKey) =
      .ok ⟨[0x30, 0x1C] ++ smallKey⟩ := by cbv
  obtain ⟨cut, extended⟩ := decode_prefixFree padded
  exact ⟨⟨_, padded⟩, cut 3 (by decide), extended _ (by decide)⟩

end TrustSchema.Key
