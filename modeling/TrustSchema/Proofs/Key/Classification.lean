import TrustSchema.Key.Blob
import TrustSchema.Proofs.Ber.Element

/-!
Which octets are RSA keys, which are well-formed keys of something else, and which are neither. The
three classes are told by the shape of the octets alone: an outer SEQUENCE, the elements in it, and
what the first of them holds. Decoding in two passes agrees with them.
-/

namespace TrustSchema.Key

open Ber

/-- The identifier of RSA encryption, 1.2.840.113549.1.1.1. -/
def rsaOctets : Bytes := [0x2A, 0x86, 0x48, 0x86, 0xF7, 0x0D, 0x01, 0x01, 0x01]

/-- The octets are a SEQUENCE that states the length of the whole rest, in any definite form. -/
def OuterSequence (raw contents : Bytes) : Prop :=
  ∃ form, DefiniteLength form contents.length ∧ raw = 0x30 :: (form ++ contents)

/-- The octets are well-formed elements, one after another. -/
def FieldsOf (contents : Bytes) (fields : List Bytes) : Prop :=
  contents = fields.flatten ∧ ∀ field ∈ fields, WellFormed field

/-- The contents of an AlgorithmIdentifier begin with the identifier of RSA encryption. -/
inductive RsaAlgorithm : Bytes → Prop
  | intro {identifier parameters} :
      IsElement identifier Tag.objectIdentifier rsaOctets → RsaAlgorithm (identifier ++ parameters)

/-- The contents of an AlgorithmIdentifier are empty, or begin with something else than an
identifier, or with another identifier that does not end inside an arc. -/
inductive OtherAlgorithm : Bytes → Prop
  | empty : OtherAlgorithm []
  | notIdentifier {front parameters tag contents} :
      IsElement front tag contents → tag ≠ Tag.objectIdentifier →
      OtherAlgorithm (front ++ parameters)
  | otherIdentifier {front parameters octets last} :
      IsElement front Tag.objectIdentifier octets → octets.getLast? = some last → last < 0x80 →
      octets ≠ rsaOctets → OtherAlgorithm (front ++ parameters)

/-- The first field of a key is an AlgorithmIdentifier for RSA encryption. -/
inductive RsaFields : List Bytes → Prop
  | intro {first algorithm rest} :
      IsElement first Tag.sequence algorithm → RsaAlgorithm algorithm → RsaFields (first :: rest)

/-- A key has no field, or the first one is no AlgorithmIdentifier for RSA encryption. -/
inductive OtherFields : List Bytes → Prop
  | noField : OtherFields []
  | notSequence {first tag contents rest} :
      IsElement first tag contents → tag ≠ Tag.sequence → OtherFields (first :: rest)
  | otherAlgorithm {first algorithm rest} :
      IsElement first Tag.sequence algorithm → OtherAlgorithm algorithm →
      OtherFields (first :: rest)

theorem readable_sequence : Tag.sequence.Readable :=
  ⟨by decide, by decide⟩

theorem encode_sequence : Tag.sequence.encode = [0x30] := by
  decide

theorem outerSequence_iff (raw contents : Bytes) :
    OuterSequence raw contents ↔ IsElement raw Tag.sequence contents := by
  rw [isElement_iff, encode_sequence]
  constructor
  · rintro ⟨form, stated, rfl⟩
    exact ⟨readable_sequence, form, stated, rfl⟩
  · rintro ⟨-, form, stated, rfl⟩
    exact ⟨form, stated, rfl⟩

theorem OuterSequence.bounded {raw contents : Bytes} (outer : OuterSequence raw contents) :
    contents.length < 256 ^ maxLengthOctets := by
  obtain ⟨form, stated, -⟩ := outer
  exact stated.lt

theorem OuterSequence.unique {raw a b : Bytes} (outerA : OuterSequence raw a)
    (outerB : OuterSequence raw b) : a = b :=
  (IsElement.unique ((outerSequence_iff _ _).mp outerA) ((outerSequence_iff _ _).mp outerB)
    (rfl : raw ++ [] = raw ++ [])).2.1

/-! ### The first pass -/

theorem canonicalize_ok_iff (raw canonical : Bytes) :
    canonicalize raw = .ok canonical ↔
      ∃ contents, OuterSequence raw contents ∧
        canonical = encodeElement Tag.sequence contents := by
  constructor
  · intro passed
    unfold canonicalize Reader.readExpected at passed
    split at passed
    next => cases passed
    next outer after expected =>
      split at expected
      next => cases expected
      next element last read =>
        split at expected
        next sequence =>
          cases expected
          split at passed
          next => cases passed
          next finished =>
            cases passed
            refine ⟨outer.contents, (outerSequence_iff _ _).mpr ⟨outer.offset, after, ?_, ?_⟩, rfl⟩
            · rw [read, ← sequence]
            · unfold Reader.finish at finished
              split at finished
              next done => exact done
              next => cases finished
        next => cases expected
  · rintro ⟨contents, outer, rfl⟩
    obtain ⟨place, after, read, done⟩ := (outerSequence_iff _ _).mp outer
    simp only [canonicalize, Reader.readExpected, read, if_true, Reader.finish, done]

/-! ### The walk over the fields -/

/-- Where an element comes first, it is a field, and the octets after it are the others. -/
theorem exists_fieldsOf_append_iff {octets contents : Bytes} {tag : Tag}
    (element : IsElement octets tag contents) (rest : Bytes) :
    (∃ fields, FieldsOf (octets ++ rest) fields) ↔ ∃ fields, FieldsOf rest fields := by
  constructor
  · rintro ⟨fields, whole, wellFormed⟩
    cases fields with
    | nil => exact absurd (List.append_eq_nil_iff.mp whole).1 element.ne_nil
    | cons field others =>
      obtain ⟨tag', inner, first⟩ := wellFormed field List.mem_cons_self
      -- Both begin with the same element, so that the rests are the same octets.
      obtain ⟨-, -, same⟩ := element.unique first whole
      exact ⟨others, same, fun other member => wellFormed other (List.mem_cons_of_mem _ member)⟩
  · rintro ⟨fields, rfl, wellFormed⟩
    exact ⟨octets :: fields, rfl, List.forall_mem_cons.mpr ⟨⟨_, _, element⟩, wellFormed⟩⟩

theorem walk_ok_iff (r : Reader) :
    walk r = .ok () ↔ ∃ fields, FieldsOf r.unread fields := by
  fun_induction walk r with
  | case1 r none =>
    simp only [true_iff]
    exact ⟨[], List.isEmpty_iff.mp none, fun field member => absurd member List.not_mem_nil⟩
  | case2 r more fault after read =>
    simp only [reduceCtorEq, false_iff]
    rintro ⟨fields, whole, wellFormed⟩
    cases fields with
    | nil => exact more (List.isEmpty_iff.mpr whole)
    | cons field rest =>
      obtain ⟨tag, contents, element⟩ := wellFormed field List.mem_cons_self
      obtain ⟨place, read'⟩ := Reader.readElement_of_front element whole
      rw [read] at read'
      cases read'
  | case3 r more element after read ih =>
    obtain ⟨octets, isElement, front⟩ := Reader.exists_isElement_of_readElement read
    rw [ih, front, exists_fieldsOf_append_iff isElement]

/-! ### The algorithm -/

theorem ofContents?_eq_some_iff (contents : Bytes) (oid : ObjectIdentifier) :
    ObjectIdentifier.ofContents? contents = some oid ↔
      (∃ last, contents.getLast? = some last ∧ last < 0x80) ∧ oid = ⟨contents⟩ := by
  unfold ObjectIdentifier.ofContents?
  cases found : contents.getLast? with
  | none => simp
  | some last =>
    by_cases closed : last < 0x80
    · simp [closed, eq_comm]
    · simp [closed]

theorem checkIdentifier_empty {algorithm : Element} (none : algorithm.contents = []) :
    checkIdentifier algorithm = .error (.unsupported .emptyAlgorithm) :=
  if_pos (List.isEmpty_iff.mpr none)

/-- Of an AlgorithmIdentifier that is not empty, the first element alone decides. -/
theorem checkIdentifier_front {algorithm : Element} {front octets parameters : Bytes} {tag : Tag}
    (element : IsElement front tag octets) (whole : algorithm.contents = front ++ parameters) :
    checkIdentifier algorithm =
      if tag ≠ Tag.objectIdentifier then .error (.unsupported (.notIdentifier tag))
      else
        match ObjectIdentifier.ofContents? octets with
        | none => .error (.decode .invalidObjectIdentifier)
        | some oid =>
          if oid = ObjectIdentifier.rsaEncryption then .ok ()
          else .error (.unsupported (.other oid)) := by
  have unread : algorithm.reader.unread = front ++ parameters := whole
  have occupied := Reader.isEmpty_of_front element unread
  obtain ⟨place, read⟩ := Reader.readElement_of_front element unread
  by_cases different : tag ≠ Tag.objectIdentifier
  · simp only [checkIdentifier, occupied, Bool.false_eq_true, if_false, read, if_pos different]
  · cases closed : ObjectIdentifier.ofContents? octets with
    | none =>
      simp only [checkIdentifier, occupied, Bool.false_eq_true, if_false, read, if_neg different,
        closed]
    | some oid =>
      simp only [checkIdentifier, occupied, Bool.false_eq_true, if_false, read, if_neg different,
        closed]

/-- Whatever is told about an AlgorithmIdentifier, it is empty, begins with an element, or is
refused for what it begins with. -/
theorem checkIdentifier_cases (algorithm : Element) :
    algorithm.contents = [] ∨
      (∃ front octets parameters tag, IsElement front tag octets ∧
        algorithm.contents = front ++ parameters) ∨
      ∃ fault, checkIdentifier algorithm = .error (.decode fault) := by
  by_cases none : algorithm.contents = []
  · exact .inl none
  have occupied : ¬algorithm.reader.isEmpty = true := fun empty => none (List.isEmpty_iff.mp empty)
  cases read : algorithm.reader.readElement with
  | mk outcome after =>
    cases outcome with
    | error fault =>
      right; right
      exact ⟨fault, by rw [checkIdentifier, if_neg occupied, read]⟩
    | ok first =>
      obtain ⟨front, element, whole⟩ := Reader.exists_isElement_of_readElement read
      exact .inr (.inl ⟨front, first.contents, after.unread, first.tag, element, whole⟩)

theorem checkIdentifier_ok_iff (algorithm : Element) :
    checkIdentifier algorithm = .ok () ↔ RsaAlgorithm algorithm.contents := by
  constructor
  · intro passed
    rcases checkIdentifier_cases algorithm with
      none | ⟨front, octets, parameters, tag, element, whole⟩ | ⟨fault, refused⟩
    · rw [checkIdentifier_empty none] at passed
      cases passed
    · rw [checkIdentifier_front element whole] at passed
      split at passed
      next => cases passed
      next identifier =>
        split at passed
        next => cases passed
        next oid closed =>
          split at passed
          next rsa =>
            obtain ⟨-, same⟩ := (ofContents?_eq_some_iff _ _).mp closed
            rw [same] at rsa
            have exactly : octets = rsaOctets := congrArg ObjectIdentifier.octets rsa
            rw [not_not.mp identifier, exactly] at element
            rw [whole]
            exact .intro element
          next => cases passed
    · rw [refused] at passed
      cases passed
  · generalize whole : algorithm.contents = contents
    rintro ⟨element⟩
    have closed : ObjectIdentifier.ofContents? rsaOctets = some .rsaEncryption := rfl
    rw [checkIdentifier_front element whole, if_neg (not_not.mpr rfl), closed]
    exact if_pos rfl

theorem checkIdentifier_unsupported_iff (algorithm : Element) :
    (∃ found, checkIdentifier algorithm = .error (.unsupported found)) ↔
      OtherAlgorithm algorithm.contents := by
  constructor
  · rintro ⟨found, refused⟩
    rcases checkIdentifier_cases algorithm with
      none | ⟨front, octets, parameters, tag, element, whole⟩ | ⟨fault, other⟩
    · rw [none]
      exact .empty
    · rw [checkIdentifier_front element whole] at refused
      rw [whole]
      split at refused
      next different => exact .notIdentifier element different
      next identifier =>
        rw [not_not.mp identifier] at element
        split at refused
        next => cases refused
        next oid closed =>
          split at refused
          next => cases refused
          next other =>
            obtain ⟨⟨last, final, low⟩, same⟩ := (ofContents?_eq_some_iff _ _).mp closed
            apply OtherAlgorithm.otherIdentifier element final low
            intro exactly
            rw [same, exactly] at other
            exact other rfl
    · rw [other] at refused
      cases refused
  · generalize whole : algorithm.contents = contents
    intro other
    cases other with
    | empty => exact ⟨_, checkIdentifier_empty whole⟩
    | notIdentifier element different =>
      exact ⟨_, (checkIdentifier_front element whole).trans (if_pos different)⟩
    | @otherIdentifier _ _ octets last element final low different =>
      have closed : ObjectIdentifier.ofContents? octets = some ⟨octets⟩ :=
        (ofContents?_eq_some_iff _ _).mpr ⟨⟨last, final, low⟩, rfl⟩
      have unequal : ¬(⟨octets⟩ : ObjectIdentifier) = .rsaEncryption := fun same =>
        different (congrArg ObjectIdentifier.octets same)
      rw [checkIdentifier_front element whole, if_neg (not_not.mpr rfl), closed]
      exact ⟨_, if_neg unequal⟩

/-! ### The second pass -/

theorem readExpected_canonical {contents : Bytes}
    (bounded : contents.length < 256 ^ maxLengthOctets) :
    ∃ place after,
      (Reader.ofBytes (encodeElement Tag.sequence contents)).readExpected Tag.sequence =
        (.ok ⟨Tag.sequence, contents, place⟩, after) := by
  obtain ⟨place, after, read, -⟩ := isElement_encodeElement readable_sequence bounded
  refine ⟨place, after, ?_⟩
  rw [Reader.readExpected, read]
  exact if_pos rfl

section

variable {contents : Bytes} (bounded : contents.length < 256 ^ maxLengthOctets)
include bounded

theorem checkAlgorithm_noField (none : FieldsOf contents []) :
    checkAlgorithm (encodeElement Tag.sequence contents) = .error (.unsupported .noAlgorithm) := by
  obtain ⟨place, after, read⟩ := readExpected_canonical bounded
  have empty : (Element.reader ⟨Tag.sequence, contents, place⟩).isEmpty = true :=
    List.isEmpty_iff.mpr none.1
  simp only [checkAlgorithm, read, empty, if_true]

theorem checkAlgorithm_cons {first inner : Bytes} {rest : List Bytes} {tag : Tag}
    (fields : FieldsOf contents (first :: rest)) (element : IsElement first tag inner) :
    ∃ place, checkAlgorithm (encodeElement Tag.sequence contents) =
      if tag ≠ Tag.sequence then .error (.unsupported (.notSequence tag))
      else checkIdentifier ⟨tag, inner, place⟩ := by
  obtain ⟨outerPlace, after, read⟩ := readExpected_canonical bounded
  have front : (Element.reader ⟨Tag.sequence, contents, outerPlace⟩).unread =
      first ++ rest.flatten := fields.1
  obtain ⟨place, readFirst⟩ := Reader.readElement_of_front element front
  have occupied := Reader.isEmpty_of_front element front
  have walked (offset : Nat) : walk ⟨offset, rest.flatten⟩ = .ok () :=
    (walk_ok_iff _).mpr
      ⟨rest, rfl, fun field member => fields.2 field (List.mem_cons_of_mem _ member)⟩
  refine ⟨place, ?_⟩
  simp only [checkAlgorithm, read, occupied, Bool.false_eq_true, if_false]
  simp only [readFirst, walked]

/-- When some field is not well-formed, that is what is reported, whatever the first one is. -/
theorem checkAlgorithm_malformed (malformed : ¬∃ fields, FieldsOf contents fields) :
    ∃ fault, checkAlgorithm (encodeElement Tag.sequence contents) = .error (.decode fault) := by
  obtain ⟨place, after, read⟩ := readExpected_canonical bounded
  simp only [checkAlgorithm, read]
  split
  next none =>
    exact absurd ⟨[], List.isEmpty_iff.mp none, fun _ member => nomatch member⟩ malformed
  split
  next fault _ _ => exact ⟨fault, rfl⟩
  next algorithm rest readFirst =>
    obtain ⟨first, element, whole⟩ := Reader.exists_isElement_of_readElement readFirst
    split
    next fault _ => exact ⟨fault, rfl⟩
    next walked =>
      -- The walk has split the rest into fields, so there would be fields after all.
      obtain ⟨fields, same, wellFormed⟩ := (walk_ok_iff rest).mp walked
      have split : FieldsOf contents (first :: fields) := by
        refine ⟨?_, List.forall_mem_cons.mpr ⟨⟨_, _, element⟩, wellFormed⟩⟩
        rw [List.flatten_cons, ← same]
        exact whole
      exact absurd ⟨_, split⟩ malformed

theorem checkAlgorithm_ok_iff :
    checkAlgorithm (encodeElement Tag.sequence contents) = .ok () ↔
      ∃ fields, FieldsOf contents fields ∧ RsaFields fields := by
  constructor
  · intro passed
    by_cases malformed : ∃ fields, FieldsOf contents fields
    · obtain ⟨fields, split⟩ := malformed
      refine ⟨fields, split, ?_⟩
      cases fields with
      | nil =>
        rw [checkAlgorithm_noField bounded split] at passed
        cases passed
      | cons first rest =>
        obtain ⟨tag, inner, element⟩ := split.2 first List.mem_cons_self
        obtain ⟨place, decided⟩ := checkAlgorithm_cons bounded split element
        rw [decided] at passed
        split at passed
        next => cases passed
        next sequence =>
          rw [not_not.mp sequence] at element
          exact .intro element ((checkIdentifier_ok_iff _).mp passed)
    · obtain ⟨fault, refused⟩ := checkAlgorithm_malformed bounded malformed
      rw [refused] at passed
      cases passed
  · rintro ⟨fields, split, ⟨element, rsa⟩⟩
    obtain ⟨place, decided⟩ := checkAlgorithm_cons bounded split element
    rw [decided, if_neg (not_not.mpr rfl)]
    exact (checkIdentifier_ok_iff _).mpr rsa

theorem checkAlgorithm_unsupported_iff :
    (∃ found, checkAlgorithm (encodeElement Tag.sequence contents) =
      .error (.unsupported found)) ↔ ∃ fields, FieldsOf contents fields ∧ OtherFields fields := by
  constructor
  · rintro ⟨found, refused⟩
    by_cases malformed : ∃ fields, FieldsOf contents fields
    · obtain ⟨fields, split⟩ := malformed
      refine ⟨fields, split, ?_⟩
      cases fields with
      | nil => exact .noField
      | cons first rest =>
        obtain ⟨tag, inner, element⟩ := split.2 first List.mem_cons_self
        obtain ⟨place, decided⟩ := checkAlgorithm_cons bounded split element
        rw [decided] at refused
        split at refused
        next different => exact .notSequence element different
        next sequence =>
          rw [not_not.mp sequence] at element
          exact .otherAlgorithm element ((checkIdentifier_unsupported_iff _).mp ⟨found, refused⟩)
    · obtain ⟨fault, other⟩ := checkAlgorithm_malformed bounded malformed
      rw [other] at refused
      cases refused
  · rintro ⟨fields, split, other⟩
    cases other with
    | noField => exact ⟨_, checkAlgorithm_noField bounded split⟩
    | notSequence element different =>
      obtain ⟨place, decided⟩ := checkAlgorithm_cons bounded split element
      rw [decided, if_pos different]
      exact ⟨_, rfl⟩
    | otherAlgorithm element inner =>
      obtain ⟨place, decided⟩ := checkAlgorithm_cons bounded split element
      rw [decided, if_neg (not_not.mpr rfl)]
      exact (checkIdentifier_unsupported_iff _).mpr inner

end

/-! ### Both passes -/

theorem decode_of_outerSequence {raw contents : Bytes} (outer : OuterSequence raw contents) :
    Blob.decode raw =
      match checkAlgorithm (encodeElement Tag.sequence contents) with
      | .error e => .error e
      | .ok () => .ok ⟨encodeElement Tag.sequence contents⟩ := by
  have first := (canonicalize_ok_iff raw _).mpr ⟨contents, outer, rfl⟩
  cases verdict : checkAlgorithm (encodeElement Tag.sequence contents) with
  | error e => simp only [Blob.decode, first, verdict]
  | ok => simp only [Blob.decode, first, verdict]

theorem decode_of_not_outerSequence {raw : Bytes}
    (neither : ¬∃ contents, OuterSequence raw contents) :
    ∃ fault, Blob.decode raw = .error (.decode fault) := by
  unfold Blob.decode
  split
  next fault _ => exact ⟨fault, rfl⟩
  next canonical passed =>
    obtain ⟨contents, outer, -⟩ := (canonicalize_ok_iff raw canonical).mp passed
    exact absurd ⟨contents, outer⟩ neither

/-- A key is decoded from octets exactly when they are an outer SEQUENCE of fields for RSA
encryption, and it has the contents of that SEQUENCE under their shortest length. -/
theorem decode_ok_iff (raw : Bytes) (key : Blob) :
    Blob.decode raw = .ok key ↔
      ∃ contents fields, OuterSequence raw contents ∧ FieldsOf contents fields ∧
        RsaFields fields ∧ key.der = encodeElement Tag.sequence contents := by
  by_cases sequence : ∃ contents, OuterSequence raw contents
  · obtain ⟨contents, outer⟩ := sequence
    rw [decode_of_outerSequence outer]
    constructor
    · intro decoded
      split at decoded
      next => cases decoded
      next passed =>
        cases decoded
        obtain ⟨fields, split, rsa⟩ := (checkAlgorithm_ok_iff outer.bounded).mp passed
        exact ⟨contents, fields, outer, split, rsa, rfl⟩
    · rintro ⟨other, fields, outer', split, rsa, written⟩
      obtain rfl := outer.unique outer'
      have passed := (checkAlgorithm_ok_iff outer.bounded).mpr ⟨fields, split, rsa⟩
      rw [passed, ← written]
  · obtain ⟨fault, refused⟩ := decode_of_not_outerSequence sequence
    rw [refused]
    simp only [reduceCtorEq, false_iff]
    rintro ⟨contents, fields, outer, -⟩
    exact sequence ⟨contents, outer⟩

theorem decode_unsupported_iff (raw : Bytes) :
    (∃ found, Blob.decode raw = .error (.unsupported found)) ↔
      ∃ contents fields, OuterSequence raw contents ∧ FieldsOf contents fields ∧
        OtherFields fields := by
  by_cases sequence : ∃ contents, OuterSequence raw contents
  · obtain ⟨contents, outer⟩ := sequence
    rw [decode_of_outerSequence outer]
    constructor
    · rintro ⟨found, refused⟩
      split at refused
      next e failed =>
        cases refused
        obtain ⟨fields, split, other⟩ :=
          (checkAlgorithm_unsupported_iff outer.bounded).mp ⟨found, failed⟩
        exact ⟨contents, fields, outer, split, other⟩
      next => cases refused
    · rintro ⟨other, fields, outer', split, otherFields⟩
      obtain rfl := outer.unique outer'
      obtain ⟨found, failed⟩ :=
        (checkAlgorithm_unsupported_iff outer.bounded).mpr ⟨fields, split, otherFields⟩
      rw [failed]
      exact ⟨found, rfl⟩
  · obtain ⟨fault, refused⟩ := decode_of_not_outerSequence sequence
    rw [refused]
    constructor
    · rintro ⟨found, same⟩
      cases same
    · rintro ⟨contents, fields, outer, -⟩
      exact absurd ⟨contents, outer⟩ sequence

theorem decode_fault_iff (raw : Bytes) :
    (∃ fault, Blob.decode raw = .error (.decode fault)) ↔
      ∀ contents fields, OuterSequence raw contents → FieldsOf contents fields →
        ¬RsaFields fields ∧ ¬OtherFields fields := by
  constructor
  · rintro ⟨fault, refused⟩ contents fields outer split
    constructor
    · intro rsa
      have decoded := (decode_ok_iff raw ⟨encodeElement Tag.sequence contents⟩).mpr
        ⟨contents, fields, outer, split, rsa, rfl⟩
      rw [refused] at decoded
      cases decoded
    · intro other
      obtain ⟨found, unsupported⟩ :=
        (decode_unsupported_iff raw).mpr ⟨contents, fields, outer, split, other⟩
      rw [refused] at unsupported
      cases unsupported
  · intro neither
    cases outcome : Blob.decode raw with
    | ok key =>
      obtain ⟨contents, fields, outer, split, rsa, -⟩ := (decode_ok_iff raw key).mp outcome
      exact absurd rsa (neither contents fields outer split).1
    | error e =>
      cases e with
      | decode fault => exact ⟨fault, rfl⟩
      | unsupported found =>
        obtain ⟨contents, fields, outer, split, other⟩ :=
          (decode_unsupported_iff raw).mp ⟨found, outcome⟩
        exact absurd other (neither contents fields outer split).2

/-- Keys, well-formed keys of another algorithm, and everything else. The three outcomes are told
by the shape of the octets, and a key is written with the shortest length of its contents. -/
theorem decode_classification (raw : Bytes) :
    (∀ key, Blob.decode raw = .ok key ↔
      ∃ contents fields form, OuterSequence raw contents ∧ FieldsOf contents fields ∧
        RsaFields fields ∧ ShortestLength form contents.length ∧
        key.der = 0x30 :: (form ++ contents)) ∧
    ((∃ found, Blob.decode raw = .error (.unsupported found)) ↔
      ∃ contents fields, OuterSequence raw contents ∧ FieldsOf contents fields ∧
        OtherFields fields) ∧
    ((∃ fault, Blob.decode raw = .error (.decode fault)) ↔
      ∀ contents fields, OuterSequence raw contents → FieldsOf contents fields →
        ¬RsaFields fields ∧ ¬OtherFields fields) := by
  refine ⟨fun key => ?_, decode_unsupported_iff raw, decode_fault_iff raw⟩
  -- What is written for the length is the one form that none is shorter than.
  rw [decode_ok_iff]
  constructor
  · rintro ⟨contents, fields, outer, split, rsa, written⟩
    have shortest := (shortestLength_iff outer.bounded _).mpr rfl
    exact ⟨contents, fields, _, outer, split, rsa, shortest, written⟩
  · rintro ⟨contents, fields, form, outer, split, rsa, shortest, written⟩
    obtain rfl := (shortestLength_iff outer.bounded form).mp shortest
    exact ⟨contents, fields, outer, split, rsa, written⟩

end TrustSchema.Key
