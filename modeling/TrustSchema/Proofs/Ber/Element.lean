import TrustSchema.Proofs.Ber.Identifier
import TrustSchema.Proofs.Ber.Length

/-!
Elements of definite length. A read succeeds exactly on the identifier of a readable tag, a form of
the length of the contents, the contents, and anything after them. What it gives does not depend on
what follows the element, so that elements can be read one after another.
-/

namespace TrustSchema.Ber

/-- Octets that are read as one element, with nothing left over. -/
def IsElement (octets : Bytes) (tag : Tag) (contents : Bytes) : Prop :=
  ∃ offset after, (Reader.ofBytes octets).readElement = (.ok ⟨tag, contents, offset⟩, after) ∧
    after.isEmpty = true

/-- Octets that are one element of any kind. -/
def WellFormed (octets : Bytes) : Prop :=
  ∃ tag contents, IsElement octets tag contents

namespace Reader

/-- The parts of what is read as an element. -/
theorem parts_of_readElement {r after : Reader} {e : Element}
    (read : r.readElement = (.ok e, after)) :
    ∃ form, e.tag.Readable ∧ DefiniteLength form e.contents.length ∧
      r.unread = e.tag.encode ++ form ++ e.contents ++ after.unread ∧
      e.offset = r.offset + (e.tag.encode ++ form).length ∧
      after.offset = e.offset + e.contents.length := by
  simp only [readElement, readHeader] at read
  split at read
  next => cases read
  next header middle headed =>
    split at headed
    next => cases headed
    next tag between tagged =>
      obtain ⟨readable, identifier, place⟩ := eq_encode_of_readTag tagged
      split at headed
      next => cases headed
      next length last measured =>
        cases headed
        dsimp only at read
        split at read
        next => cases read
        next n =>
          obtain ⟨form, stated, stretch, place'⟩ := exists_of_readLength measured
          split at read
          next => cases read
          next fits =>
            cases read
            -- The contents are as long as stated, because that many octets are left.
            have size : (middle.unread.take n).length = n :=
              List.length_take_of_le (Nat.le_of_not_lt fits)
            refine ⟨form, readable, ?_, ?_, ?_, ?_⟩
            · rw [size]
              exact stated
            · rw [identifier, stretch]
              simp only [List.append_assoc, List.take_append_drop]
            · rw [place', place, List.length_append, Nat.add_assoc]
            · rw [size]

/-- The parts of an element are read as that element, whatever follows. -/
theorem readElement_parts {tag : Tag} {form contents : Bytes} (readable : tag.Readable)
    (stated : DefiniteLength form contents.length) (offset : Nat) (rest : Bytes) :
    readElement ⟨offset, tag.encode ++ form ++ contents ++ rest⟩ =
      (.ok ⟨tag, contents, offset + (tag.encode ++ form).length⟩,
        ⟨offset + (tag.encode ++ form).length + contents.length, rest⟩) := by
  have tagged := readTag_encode readable offset (form ++ (contents ++ rest))
  have measured := readLength_append stated (offset + tag.encode.length) (contents ++ rest)
  have fits : ¬contents.length + rest.length < contents.length := by omega
  rw [List.append_assoc, List.append_assoc]
  simp only [readElement, readHeader, tagged, measured, remaining, if_neg fits,
    List.take_left, List.drop_left, List.length_append, Nat.add_assoc]

end Reader

/-- The octets of an element are the identifier of its tag, a form of its length, and its
contents. -/
theorem isElement_iff (octets : Bytes) (tag : Tag) (contents : Bytes) :
    IsElement octets tag contents ↔
      tag.Readable ∧ ∃ form, DefiniteLength form contents.length ∧
        octets = tag.encode ++ form ++ contents := by
  constructor
  · rintro ⟨offset, after, read, none⟩
    obtain ⟨form, readable, stated, whole, -, -⟩ := Reader.parts_of_readElement read
    rw [List.isEmpty_iff.mp none, List.append_nil] at whole
    exact ⟨readable, form, stated, whole⟩
  · rintro ⟨readable, form, stated, rfl⟩
    have read := Reader.readElement_parts readable stated 0 []
    rw [List.append_nil] at read
    exact ⟨_, _, read, rfl⟩

theorem IsElement.ne_nil {octets : Bytes} {tag : Tag} {contents : Bytes}
    (element : IsElement octets tag contents) : octets ≠ [] := by
  rintro rfl
  obtain ⟨offset, after, read, -⟩ := element
  cases read

namespace Reader

/-- An element is read from the front of the input, and nothing more. -/
theorem readElement_of_front {r : Reader} {octets contents rest : Bytes} {tag : Tag}
    (element : IsElement octets tag contents) (front : r.unread = octets ++ rest) :
    ∃ place, r.readElement =
      (.ok ⟨tag, contents, place⟩, ⟨r.offset + octets.length, rest⟩) := by
  obtain ⟨readable, form, stated, rfl⟩ := (isElement_iff _ _ _).mp element
  obtain ⟨offset, unread⟩ := r
  obtain rfl := front
  have size : (tag.encode ++ form ++ contents).length =
      (tag.encode ++ form).length + contents.length := List.length_append
  rw [readElement_parts readable stated offset rest, size, ← Nat.add_assoc]
  exact ⟨_, rfl⟩

theorem isEmpty_of_front {r : Reader} {octets contents rest : Bytes} {tag : Tag}
    (element : IsElement octets tag contents) (front : r.unread = octets ++ rest) :
    r.isEmpty = false := by
  rw [isEmpty, front, List.isEmpty_eq_false_iff]
  exact List.append_ne_nil_of_left_ne_nil element.ne_nil rest

/-- Every successful read takes an element from the front of the input. -/
theorem exists_isElement_of_readElement {r after : Reader} {e : Element}
    (read : r.readElement = (.ok e, after)) :
    ∃ octets, IsElement octets e.tag e.contents ∧ r.unread = octets ++ after.unread := by
  obtain ⟨form, readable, stated, whole, -, -⟩ := parts_of_readElement read
  exact ⟨_, (isElement_iff _ _ _).mpr ⟨readable, form, stated, rfl⟩, whole⟩

end Reader

/-- The input ends where an octet is needed, or before the length that an element states. -/
inductive EndsEarly : DecodeError → Prop
  | truncated (offset : Nat) : EndsEarly (.truncated offset)
  | lengthOverrun (offset length remaining : Nat) :
      EndsEarly (.lengthOverrun offset length remaining)

/-- An element that is cut anywhere is not taken for another one: the input ends early. -/
theorem IsElement.take {octets contents : Bytes} {tag : Tag}
    (element : IsElement octets tag contents) {cut : Nat} (short : cut < octets.length) :
    ∃ fault after, EndsEarly fault ∧
      (Reader.ofBytes (octets.take cut)).readElement = (.error fault, after) := by
  obtain ⟨readable, form, stated, rfl⟩ := (isElement_iff _ _ _).mp element
  simp only [List.append_assoc, List.length_append] at short ⊢
  by_cases inTag : cut < tag.encode.length
  · obtain ⟨place, last, ended⟩ := Reader.readTag_take readable 0 inTag
    refine ⟨_, last, .truncated place, ?_⟩
    rw [List.take_append_of_le_length (Nat.le_of_lt inTag)]
    simp only [Reader.ofBytes, Reader.readElement, Reader.readHeader, ended]
  obtain ⟨cut, rfl⟩ := Nat.exists_eq_add_of_le (Nat.le_of_not_lt inTag)
  have tagged (rest : Bytes) := Reader.readTag_encode readable 0 rest
  rw [List.take_length_add_append]
  by_cases inForm : cut < form.length
  · obtain ⟨place, last, ended⟩ := Reader.readLength_take stated (0 + tag.encode.length) inForm
    refine ⟨_, last, .truncated place, ?_⟩
    rw [List.take_append_of_le_length (Nat.le_of_lt inForm)]
    simp only [Reader.ofBytes, Reader.readElement, Reader.readHeader, tagged, ended]
  obtain ⟨cut, rfl⟩ := Nat.exists_eq_add_of_le (Nat.le_of_not_lt inForm)
  have measured (rest : Bytes) := Reader.readLength_append stated (0 + tag.encode.length) rest
  have missing : (contents.take cut).length < contents.length := by
    rw [List.length_take]
    omega
  refine ⟨_, ⟨0 + tag.encode.length + form.length, contents.take cut⟩,
    .lengthOverrun 0 contents.length (contents.take cut).length, ?_⟩
  rw [List.take_length_add_append]
  simp only [Reader.ofBytes, Reader.readElement, Reader.readHeader, tagged, measured,
    Reader.remaining]
  exact if_pos missing

/-- Two elements at the front of the same octets are the same element. -/
theorem IsElement.unique {a b restA restB : Bytes} {tagA tagB : Tag} {contentsA contentsB : Bytes}
    (elementA : IsElement a tagA contentsA) (elementB : IsElement b tagB contentsB)
    (same : a ++ restA = b ++ restB) :
    tagA = tagB ∧ contentsA = contentsB ∧ restA = restB := by
  -- Both are what the one read at the front of the octets gives.
  obtain ⟨placeA, readA⟩ := Reader.readElement_of_front (r := .ofBytes (a ++ restA)) elementA rfl
  obtain ⟨placeB, readB⟩ := Reader.readElement_of_front (r := .ofBytes (a ++ restA)) elementB same
  rw [readB] at readA
  obtain ⟨element, after⟩ := Prod.mk.inj readA
  obtain ⟨rfl, rfl, -⟩ := Element.mk.inj (Except.ok.inj element)
  exact ⟨rfl, rfl, (Reader.mk.inj after).2.symm⟩

/-- What is written for a readable tag and short enough contents is an element. -/
theorem isElement_encodeElement {tag : Tag} {contents : Bytes} (readable : tag.Readable)
    (bounded : contents.length < 256 ^ maxLengthOctets) :
    IsElement (encodeElement tag contents) tag contents :=
  (isElement_iff _ _ _).mpr ⟨readable, _, definiteLength_encodeLength bounded, rfl⟩

/-- What is written is no longer than any other octets of the same element, and it is those octets
exactly if they state the length in the shortest form. -/
theorem encodeElement_eq_iff {tag : Tag} {form contents : Bytes}
    (stated : DefiniteLength form contents.length) :
    (encodeElement tag contents).length ≤ (tag.encode ++ form ++ contents).length ∧
      (encodeElement tag contents = tag.encode ++ form ++ contents ↔
        ShortestLength form contents.length) := by
  rw [shortestLength_iff stated.lt, encodeElement]
  constructor
  · have least := (encodeLength_shortest stated).1
    simp only [List.length_append]
    omega
  · rw [List.append_left_inj, List.append_right_inj]
    exact eq_comm

/-- Reading the input gives an element with this tag and these contents, and leaves the rest. -/
def Reads (input : Bytes) (tag : Tag) (contents rest : Bytes) : Prop :=
  ∃ place after, (Reader.ofBytes input).readElement = (.ok ⟨tag, contents, place⟩, after) ∧
    after.unread = rest

theorem reads_iff (input : Bytes) (tag : Tag) (contents rest : Bytes) :
    Reads input tag contents rest ↔
      tag.Readable ∧ ∃ form, DefiniteLength form contents.length ∧
        input = tag.encode ++ form ++ contents ++ rest := by
  constructor
  · rintro ⟨place, after, read, rfl⟩
    obtain ⟨form, readable, stated, whole, -, -⟩ := Reader.parts_of_readElement read
    exact ⟨readable, form, stated, whole⟩
  · rintro ⟨readable, form, stated, rfl⟩
    exact ⟨_, _, Reader.readElement_parts readable stated 0 rest, rfl⟩

/-- Elements of definite length with the one identifier of their tag are read, and nothing else is.
The number of a tag is the one that its octets write, below the bound, and writing the element again
never takes more octets than were read. -/
theorem readElement_exact (input : Bytes) (tag : Tag) (contents rest : Bytes) :
    (Reads input tag contents rest ↔
      tag.Readable ∧ ∃ form, DefiniteLength form contents.length ∧
        input = tag.encode ++ form ++ contents ++ rest) ∧
    (∀ a b, IsIdentifier a tag → IsIdentifier b tag → a = b) ∧
    (∀ octets, IsIdentifier octets tag →
      tag.number = identifierNumber octets ∧ tag.number < 2 ^ 32) ∧
    (∀ consumed, input = consumed ++ rest → Reads input tag contents rest →
      ∃ form, consumed = tag.encode ++ form ++ contents ∧
        (encodeElement tag contents).length ≤ consumed.length ∧
        (encodeElement tag contents = consumed ↔ ShortestLength form contents.length)) := by
  refine ⟨reads_iff input tag contents rest, ?_, ?_, ?_⟩
  · intro a b first second
    obtain ⟨-, rfl⟩ := (isIdentifier_iff a tag).mp first
    obtain ⟨-, rfl⟩ := (isIdentifier_iff b tag).mp second
    rfl
  · intro octets identifier
    obtain ⟨readable, rfl⟩ := (isIdentifier_iff octets tag).mp identifier
    exact ⟨(identifierNumber_encode tag).symm, readable.bounded⟩
  · intro consumed front read
    obtain ⟨-, form, stated, whole⟩ := (reads_iff input tag contents rest).mp read
    -- The rest is the same, so that what comes before it is.
    obtain rfl : consumed = tag.encode ++ form ++ contents :=
      List.append_cancel_right (front.symm.trans whole)
    exact ⟨form, rfl, encodeElement_eq_iff stated⟩

end TrustSchema.Ber
