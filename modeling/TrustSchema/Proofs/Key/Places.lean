import TrustSchema.Proofs.Ber.Displacement
import TrustSchema.Proofs.Key.Classification

/-!
The places that faults of a key tell. The second pass of decoding reads the octets that the first
one wrote, and the place of a fault in those is what is told. In the octets that were given it is
further on by as much as the first pass shortened the length of the outer SEQUENCE.
-/

namespace TrustSchema.Key

open Ber

/-- The same error `distance` octets further on. -/
def KeyError.displace (distance : Nat) : KeyError → KeyError
  | .decode fault => .decode (fault.displace distance)
  | .unsupported found => .unsupported found

/-- What is wrong with the fields of an outer SEQUENCE: the walk over them, and the look into the
first one. -/
def checkFields (outer : Element) : Except KeyError Unit :=
  if outer.reader.isEmpty then .error (.unsupported .noAlgorithm)
  else
    match outer.reader.readElement with
    | (.error fault, _) => .error (.decode fault)
    | (.ok algorithm, fields) =>
      match walk fields with
      | .error fault => .error (.decode fault)
      | .ok () =>
        if algorithm.tag ≠ Tag.sequence then .error (.unsupported (.notSequence algorithm.tag))
        else checkIdentifier algorithm

/-- The same checks in a single pass over the octets that are given. -/
def inspect (raw : Bytes) : Except KeyError Unit :=
  match (Reader.ofBytes raw).readExpected Tag.sequence with
  | (.error fault, _) => .error (.decode fault)
  | (.ok outer, after) =>
    match after.finish with
    | .error fault => .error (.decode fault)
    | .ok () => checkFields outer

/-- By how many octets the first pass shortens its input. -/
def saved (raw : Bytes) : Nat :=
  match canonicalize raw with
  | .error _ => 0
  | .ok canonical => raw.length - canonical.length

/-! ### Checks further on in an input -/

section

variable (distance : Nat)

theorem walk_displace (r : Reader) :
    walk (r.displace distance) = (walk r).mapError (.displace distance) := by
  fun_induction walk r with
  | case1 r none =>
    rw [walk]
    exact if_pos none
  | case2 r more fault after read =>
    have moved := Reader.readElement_displace distance r
    have more' : ¬(r.displace distance).isEmpty = true := more
    rw [read] at moved
    rw [walk, if_neg more']
    split
    next met => cases moved.symm.trans met; rfl
    next met => cases moved.symm.trans met
  | case3 r more element after read ih =>
    have moved := Reader.readElement_displace distance r
    have more' : ¬(r.displace distance).isEmpty = true := more
    rw [read] at moved
    rw [walk, if_neg more']
    split
    next met => cases moved.symm.trans met
    next met => cases moved.symm.trans met; exact ih

theorem checkIdentifier_displace (algorithm : Element) :
    checkIdentifier (algorithm.displace distance) =
      (checkIdentifier algorithm).mapError (.displace distance) := by
  rw [checkIdentifier, checkIdentifier, Element.reader_displace, Reader.readElement_displace]
  by_cases none : algorithm.reader.isEmpty = true
  · rw [if_pos none]
    exact if_pos none
  · rw [if_neg none]
    refine (if_neg none).trans ?_
    rcases algorithm.reader.readElement with ⟨⟨fault⟩ | ⟨first⟩, after⟩
    · rfl
    · simp only [displaced_ok, Element.displace]
      split
      · rfl
      · split
        · rfl
        · split <;> rfl

theorem checkFields_displace (outer : Element) :
    checkFields (outer.displace distance) =
      (checkFields outer).mapError (.displace distance) := by
  rw [checkFields, checkFields, Element.reader_displace, Reader.readElement_displace]
  by_cases none : outer.reader.isEmpty = true
  · rw [if_pos none]
    exact if_pos none
  · rw [if_neg none]
    refine (if_neg none).trans ?_
    rcases outer.reader.readElement with ⟨⟨fault⟩ | ⟨algorithm⟩, fields⟩
    · rfl
    · simp only [displaced_ok, walk_displace, checkIdentifier_displace]
      cases walk fields with
      | error fault => rfl
      | ok =>
        -- The tag is the same further on.
        by_cases same : algorithm.tag = Tag.sequence
        · have same' : (algorithm.displace distance).tag = Tag.sequence := same
          rw [if_neg (not_not_intro same), if_neg (not_not_intro same')]
          rfl
        · have same' : (algorithm.displace distance).tag ≠ Tag.sequence := same
          rw [if_pos same, if_pos same']
          rfl

end

/-! ### Both passes over one SEQUENCE -/

theorem encodeElement_sequence (contents : Bytes) :
    encodeElement Tag.sequence contents = 0x30 :: (encodeLength contents.length ++ contents) :=
  rfl

section

variable {form contents : Bytes} (stated : DefiniteLength form contents.length)
include stated

/-- The contents of an outer SEQUENCE stand after the form of its length. -/
theorem readExpected_form :
    (Reader.ofBytes (0x30 :: (form ++ contents))).readExpected Tag.sequence =
      (.ok ⟨Tag.sequence, contents, 1 + form.length⟩,
        ⟨1 + form.length + contents.length, []⟩) := by
  have read := Reader.readElement_parts readable_sequence stated 0 []
  rw [encode_sequence, List.append_nil, Nat.zero_add, List.append_assoc, List.length_append] at read
  have octets : (0x30 :: (form ++ contents) : Bytes) = [0x30] ++ (form ++ contents) := rfl
  rw [Reader.readExpected, Reader.ofBytes, octets, read]
  exact if_pos rfl

theorem inspect_form :
    inspect (0x30 :: (form ++ contents)) =
      checkFields ⟨Tag.sequence, contents, 1 + form.length⟩ := by
  simp only [inspect, readExpected_form stated, Reader.finish, Reader.isEmpty, List.isEmpty_nil,
    if_true]

theorem canonicalize_form :
    canonicalize (0x30 :: (form ++ contents)) = .ok (encodeElement Tag.sequence contents) := by
  simp only [canonicalize, readExpected_form stated, Reader.finish, Reader.isEmpty,
    List.isEmpty_nil, if_true]

theorem checkAlgorithm_form :
    checkAlgorithm (0x30 :: (form ++ contents)) =
      checkFields ⟨Tag.sequence, contents, 1 + form.length⟩ := by
  rw [checkAlgorithm, readExpected_form stated]
  rfl

/-- The form that the first pass writes is the shortest one, and as much shorter are its octets. -/
theorem saved_form :
    saved (0x30 :: (form ++ contents)) + (encodeLength contents.length).length = form.length := by
  have least := (encodeLength_shortest stated).1
  have written := encodeElement_sequence contents
  rw [saved, canonicalize_form stated]
  simp only [written, List.length_cons, List.length_append]
  omega

theorem inspect_form_eq :
    inspect (0x30 :: (form ++ contents)) =
      (checkAlgorithm (encodeElement Tag.sequence contents)).mapError
        (.displace (saved (0x30 :: (form ++ contents)))) := by
  have shortest := definiteLength_encodeLength stated.lt
  have written := encodeElement_sequence contents
  have further := saved_form stated
  -- The second pass meets the same element, but nearer to the beginning.
  rw [inspect_form stated, written, checkAlgorithm_form shortest, ← checkFields_displace, ← further]
  simp only [Element.displace]
  congr 2
  omega

end

theorem saved_le (raw : Bytes) : saved raw ≤ 4 := by
  by_cases sequence : ∃ contents, OuterSequence raw contents
  · obtain ⟨contents, form, stated, rfl⟩ := sequence
    have further := saved_form stated
    have some : (encodeLength contents.length).length ≠ 0 := by
      rw [encodeLength]
      split <;> exact Nat.succ_ne_zero _
    have few : form.length ≤ 5 := stated.length_le
    omega
  · rw [saved]
    split
    · exact Nat.zero_le _
    next passed =>
      obtain ⟨contents, outer, -⟩ := (canonicalize_ok_iff _ _).mp passed
      exact absurd ⟨contents, outer⟩ sequence

/-- Decoding and the single pass agree on all octets, but for the places of faults. -/
theorem inspect_eq (raw : Bytes) :
    inspect raw = ((Blob.decode raw).map fun _ => ()).mapError (.displace (saved raw)) := by
  cases first : canonicalize raw with
  | ok canonical =>
    -- The outer SEQUENCE is there, in some form of its length.
    obtain ⟨contents, ⟨form, stated, rfl⟩, rfl⟩ := (canonicalize_ok_iff _ _).mp first
    rw [inspect_form_eq stated, Blob.decode, first]
    dsimp only
    cases checkAlgorithm (encodeElement Tag.sequence contents) with
    | error fault => rfl
    | ok => rfl
  | error fault =>
    have place : saved raw = 0 := by rw [saved, first]
    have decoded : Blob.decode raw = .error (.decode fault) := by rw [Blob.decode, first]
    rw [place, decoded]
    change inspect raw = .error (.decode (fault.displace 0))
    rw [DecodeError.displace_zero]
    -- The single pass begins as the first one does.
    unfold canonicalize at first
    unfold inspect
    cases read : (Reader.ofBytes raw).readExpected Tag.sequence with
    | mk result after =>
      rw [read] at first
      cases result with
      | error met =>
        cases first
        rfl
      | ok outer =>
        cases finished : after.finish with
        | error met =>
          simp only [finished] at first ⊢
          cases first
          rfl
        | ok nothing =>
          simp only [finished] at first
          cases first

theorem decode_fault_inspect {raw : Bytes} {fault : DecodeError}
    (failed : Blob.decode raw = .error (.decode fault)) :
    inspect raw = .error (.decode (fault.displace (saved raw))) := by
  rw [inspect_eq, failed]
  rfl

/-- The places that faults of decoding tell are those of the octets that are given. -/
def TellsPlaces (raw : Bytes) : Prop :=
  ∀ fault offset, Blob.decode raw = .error (.decode fault) → fault.offset? = some offset →
    ∃ met, inspect raw = .error (.decode met) ∧ met.offset? = some offset

/-- Every outcome of decoding is that of a single pass over the octets that are given, but a place
that it tells comes short of the one in those octets by what the first pass saved: the octets of the
outer length beyond its shortest form, at most four. So it is the right place exactly if nothing
was saved. -/
theorem decode_places (raw : Bytes) :
    inspect raw = ((Blob.decode raw).map fun _ => ()).mapError (.displace (saved raw)) ∧
    (∀ fault offset, Blob.decode raw = .error (.decode fault) → fault.offset? = some offset →
      ∃ met, inspect raw = .error (.decode met) ∧ met.offset? = some (offset + saved raw)) ∧
    (TellsPlaces raw ↔ ∀ fault offset, Blob.decode raw = .error (.decode fault) →
      fault.offset? = some offset → saved raw = 0) ∧
    (∀ form contents, DefiniteLength form contents.length → raw = 0x30 :: (form ++ contents) →
      saved raw + (encodeLength contents.length).length = form.length) ∧
    saved raw ≤ 4 := by
  have further (fault : DecodeError) (offset : Nat)
      (failed : Blob.decode raw = .error (.decode fault)) (told : fault.offset? = some offset) :
      ∃ met, inspect raw = .error (.decode met) ∧ met.offset? = some (offset + saved raw) := by
    refine ⟨_, decode_fault_inspect failed, ?_⟩
    rw [DecodeError.offset?_displace, told, Option.map_some]
  refine ⟨inspect_eq raw, further, ?_, ?_, saved_le raw⟩
  · constructor
    · intro tells fault offset failed told
      obtain ⟨met, inspected, place⟩ := tells fault offset failed told
      obtain ⟨met', inspected', place'⟩ := further fault offset failed told
      -- Both are the one fault of the single pass.
      obtain rfl : met = met' := by
        rw [inspected] at inspected'
        cases inspected'
        rfl
      have same := Option.some.inj (place.symm.trans place')
      omega
    · intro nothing fault offset failed told
      have met := further fault offset failed told
      rwa [nothing fault offset failed told] at met
  · rintro form contents stated rfl
    exact saved_form stated

/-- A key whose outer length takes an octet more than it needs, and whose algorithm has no
identifier octets that are valid. -/
def paddedKey : Bytes :=
  [0x30, 0x81, 0x1D, 0x30, 0x0E, 0x1F, 0x06, 0x09] ++ rsaOctets ++
    [0x05, 0x00, 0x03, 0x0B, 0x00, 0x30, 0x08, 0x02, 0x03, 0x00, 0xC3, 0x5B, 0x02, 0x01, 0x03]

theorem decode_paddedKey :
    Blob.decode paddedKey = .error (.decode (.invalidTag 4)) ∧
      inspect paddedKey = .error (.decode (.invalidTag 5)) ∧ ¬TellsPlaces paddedKey := by
  have decoded : Blob.decode paddedKey = .error (.decode (.invalidTag 4)) := by cbv
  have inspected : inspect paddedKey = .error (.decode (.invalidTag 5)) := by cbv
  refine ⟨decoded, inspected, fun tells => ?_⟩
  obtain ⟨met, inspected', place⟩ := tells _ 4 decoded rfl
  rw [inspected] at inspected'
  cases inspected'
  cases place

end TrustSchema.Key
