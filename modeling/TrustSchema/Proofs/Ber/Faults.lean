import TrustSchema.Proofs.Ber.Element

/-!
What reads do to a reader, and what their faults tell. Every read takes octets from the front of
the unread part, whether it succeeds or not. A fault tells the end of the window, the beginning of
the element, or the first of its length octets, and counts what is left when the read stops.
-/

namespace TrustSchema.Ber

namespace Reader

/-- The offset after the last octet of the window. -/
def limit (r : Reader) : Nat :=
  r.offset + r.remaining

/-- The second reader is the first one after some octets more. -/
def Advances (r after : Reader) : Prop :=
  ∃ octets, r.unread = octets ++ after.unread ∧ after.offset = r.offset + octets.length

theorem Advances.refl (r : Reader) : r.Advances r :=
  ⟨[], rfl, rfl⟩

theorem Advances.trans {a b c : Reader} (first : a.Advances b) (second : b.Advances c) :
    a.Advances c := by
  obtain ⟨front, whole, place⟩ := first
  obtain ⟨middle, whole', place'⟩ := second
  refine ⟨front ++ middle, ?_, ?_⟩
  · rw [whole, whole', List.append_assoc]
  · rw [place', place, List.length_append, Nat.add_assoc]

theorem Advances.remaining_le {r after : Reader} (advances : r.Advances after) :
    after.remaining ≤ r.remaining := by
  obtain ⟨octets, whole, -⟩ := advances
  rw [remaining, remaining, whole, List.length_append]
  exact Nat.le_add_left _ _

theorem Advances.limit_eq {r after : Reader} (advances : r.Advances after) :
    after.limit = r.limit := by
  obtain ⟨octets, whole, place⟩ := advances
  rw [limit, limit, remaining, remaining, whole, place, List.length_append, Nat.add_assoc]

theorem advances_cons (offset : Nat) (b : UInt8) (rest : Bytes) :
    Advances ⟨offset, b :: rest⟩ ⟨offset + 1, rest⟩ :=
  ⟨[b], rfl, rfl⟩

/-! ### Every read advances -/

theorem advances_readTagNumber (start offset number : Nat) (unread : Bytes) :
    Advances ⟨offset, unread⟩ (readTagNumber start offset number unread).2 := by
  fun_induction readTagNumber start offset number unread with
  | case1 => exact .refl _
  | case2 | case3 => exact advances_cons _ _ _
  | case4 offset number b rest _ _ _ ih => exact (advances_cons offset b rest).trans ih

theorem advances_readLongTagNumber (start : Nat) (r : Reader) :
    r.Advances (r.readLongTagNumber start).2 := by
  have groups := advances_readTagNumber start r.offset 0 r.unread
  rw [readLongTagNumber]
  split
  next padded =>
    -- The first group is there, since it is the refused one.
    obtain ⟨rest, whole⟩ := List.head?_eq_some_iff.mp padded
    exact ⟨[0x80], by rw [whole]; rfl, rfl⟩
  next =>
    split
    next read => rwa [read] at groups
    next read =>
      rw [read] at groups
      split
      · exact groups
      · exact groups

theorem advances_readTag (r : Reader) : r.Advances r.readTag.2 := by
  obtain ⟨offset, unread⟩ := r
  cases unread with
  | nil => exact .refl _
  | cons first rest =>
    have one := advances_cons offset first rest
    have number := advances_readLongTagNumber offset ⟨offset + 1, rest⟩
    simp only [readTag, readByte]
    split
    · exact one
    · split
      · exact one
      · split
        next read =>
          rw [read] at number
          exact one.trans number
        next read =>
          rw [read] at number
          exact one.trans number

theorem advances_readNumber (offset number count : Nat) (unread : Bytes) :
    Advances ⟨offset, unread⟩ (readNumber offset number count unread).2 := by
  fun_induction readNumber offset number count unread with
  | case1 | case2 => exact .refl _
  | case3 offset number count b rest ih => exact (advances_cons offset b rest).trans ih

theorem advances_readLength (r : Reader) : r.Advances r.readLength.2 := by
  obtain ⟨offset, unread⟩ := r
  cases unread with
  | nil => exact .refl _
  | cons first rest =>
    have one := advances_cons offset first rest
    have number := advances_readNumber (offset + 1) 0 (first.toNat - 128) rest
    simp only [readLength, readByte]
    split
    · exact one
    · split
      · exact one
      · split
        · exact one
        · split
          next read =>
            rw [read] at number
            exact one.trans number
          next read =>
            rw [read] at number
            exact one.trans number

theorem advances_readHeader (r : Reader) : r.Advances r.readHeader.2 := by
  have tagged := advances_readTag r
  rw [readHeader]
  split
  next read => rwa [read] at tagged
  next tag middle read =>
    rw [read] at tagged
    have measured := advances_readLength middle
    split
    next read =>
      rw [read] at measured
      exact tagged.trans measured
    next read =>
      rw [read] at measured
      exact tagged.trans measured

theorem advances_readElement (r : Reader) : r.Advances r.readElement.2 := by
  have headed := advances_readHeader r
  rw [readElement]
  split
  next read => rwa [read] at headed
  next header middle read =>
    rw [read] at headed
    split
    · exact headed
    next length _ =>
      split
      · exact headed
      next fits =>
        -- As many octets as stated are left, so that all of them are taken.
        have contents : middle.Advances ⟨middle.offset + length, middle.unread.drop length⟩ := by
          refine ⟨middle.unread.take length, (List.take_append_drop _ _).symm, ?_⟩
          rw [List.length_take_of_le (Nat.le_of_not_lt fits)]
        exact headed.trans contents

theorem advances_readExpected (expected : Tag) (r : Reader) :
    r.Advances (r.readExpected expected).2 := by
  have taken := advances_readElement r
  rw [readExpected]
  split
  next read => rwa [read] at taken
  next read =>
    rw [read] at taken
    split
    · exact taken
    · exact taken

/-! ### What the faults tell -/

theorem fault_of_readTagNumber {start offset number : Nat} {unread : Bytes} {fault : DecodeError}
    (failed : (readTagNumber start offset number unread).1 = .error fault) :
    fault = .truncated (offset + unread.length) ∨ fault = .invalidTag start := by
  fun_induction readTagNumber start offset number unread with
  | case1 =>
    cases failed
    exact .inl rfl
  | case2 =>
    cases failed
    exact .inr rfl
  | case3 => cases failed
  | case4 offset number b rest _ _ _ ih =>
    rw [List.length_cons, Nat.add_comm rest.length, ← Nat.add_assoc]
    exact ih failed

theorem fault_of_readLongTagNumber {start : Nat} {r : Reader} {fault : DecodeError}
    (failed : (r.readLongTagNumber start).1 = .error fault) :
    fault = .truncated r.limit ∨ fault = .invalidTag start := by
  rw [readLongTagNumber] at failed
  split at failed
  next =>
    cases failed
    exact .inr rfl
  next =>
    split at failed
    next read =>
      cases failed
      exact fault_of_readTagNumber (congrArg Prod.fst read)
    next =>
      split at failed
      next =>
        cases failed
        exact .inr rfl
      next => cases failed

theorem fault_of_readTag {r : Reader} {fault : DecodeError}
    (failed : r.readTag.1 = .error fault) :
    fault = .truncated r.limit ∨ fault = .invalidTag r.offset := by
  obtain ⟨offset, unread⟩ := r
  cases unread with
  | nil =>
    cases failed
    exact .inl rfl
  | cons first rest =>
    simp only [readTag, readByte] at failed
    split at failed
    next =>
      cases failed
      exact .inr rfl
    next =>
      split at failed
      next => cases failed
      next =>
        split at failed
        next read =>
          cases failed
          rw [← (advances_cons offset first rest).limit_eq]
          exact fault_of_readLongTagNumber (congrArg Prod.fst read)
        next => cases failed

theorem fault_of_readNumber {offset number count : Nat} {unread : Bytes} {fault : DecodeError}
    (failed : (readNumber offset number count unread).1 = .error fault) :
    fault = .truncated (offset + unread.length) := by
  fun_induction readNumber offset number count unread with
  | case1 => cases failed
  | case2 =>
    cases failed
    rfl
  | case3 offset number count b rest ih =>
    rw [List.length_cons, Nat.add_comm rest.length, ← Nat.add_assoc]
    exact ih failed

theorem fault_of_readLength {r : Reader} {fault : DecodeError}
    (failed : r.readLength.1 = .error fault) :
    fault = .truncated r.limit ∨ fault = .invalidLength r.offset ∧
      ∃ first rest, r.unread = first :: rest ∧ 128 + maxLengthOctets < first.toNat := by
  obtain ⟨offset, unread⟩ := r
  cases unread with
  | nil =>
    cases failed
    exact .inl rfl
  | cons first rest =>
    simp only [readLength, readByte] at failed
    split at failed
    next => cases failed
    split at failed
    next => cases failed
    split at failed
    next many =>
      cases failed
      exact .inr ⟨rfl, first, rest, rfl, by omega⟩
    next =>
      split at failed
      next read =>
        cases failed
        left
        rw [← (advances_cons offset first rest).limit_eq]
        exact fault_of_readNumber (congrArg Prod.fst read)
      next => cases failed

/-- What a fault tells about the element at the front of a reader, when reading it stops at
another one. -/
def Faulty (r after : Reader) : DecodeError → Prop
  | .truncated offset => offset = r.limit
  | .invalidTag offset => offset = r.offset
  | .indefiniteLength offset => offset = r.offset
  | .invalidLength offset => ∃ (tag : Tag) (first : UInt8) (rest : Bytes), tag.Readable ∧
      r.unread = tag.encode ++ first :: rest ∧ 128 + maxLengthOctets < first.toNat ∧
      offset = r.offset + tag.encode.length
  | .lengthOverrun offset length remaining =>
      offset = r.offset ∧ remaining < length ∧ remaining = after.remaining
  | .unexpectedTag expected found => found ≠ expected
  | .trailingData count => count = after.remaining ∧ count ≠ 0
  | .invalidObjectIdentifier => False

theorem faulty_of_readHeader {r after : Reader} {fault : DecodeError}
    (failed : r.readHeader = (.error fault, after)) : r.Faulty after fault := by
  rw [readHeader] at failed
  split at failed
  next read =>
    cases failed
    rcases fault_of_readTag (congrArg Prod.fst read) with rfl | rfl
    · rfl
    · rfl
  next tag middle read =>
    obtain ⟨readable, identifier, place⟩ := eq_encode_of_readTag read
    have tagged : r.Advances middle := ⟨_, identifier, place⟩
    split at failed
    next read =>
      cases failed
      rcases fault_of_readLength (congrArg Prod.fst read) with
        rfl | ⟨rfl, first, rest, front, refused⟩
      · exact tagged.limit_eq
      · exact ⟨tag, first, rest, readable, front ▸ identifier, refused, place⟩
    next => cases failed

theorem offset_of_readHeader {r after : Reader} {header : Header}
    (read : r.readHeader = (.ok header, after)) : header.offset = r.offset := by
  rw [readHeader] at read
  split at read
  next => cases read
  next =>
    split at read
    next => cases read
    next =>
      cases read
      rfl

theorem faulty_of_readElement {r after : Reader} {fault : DecodeError}
    (failed : r.readElement = (.error fault, after)) : r.Faulty after fault := by
  rw [readElement] at failed
  split at failed
  next read =>
    cases failed
    exact faulty_of_readHeader read
  next header middle read =>
    have place := offset_of_readHeader read
    split at failed
    next =>
      cases failed
      exact place
    next =>
      split at failed
      next overrun =>
        cases failed
        exact ⟨place, overrun, rfl⟩
      next => cases failed

theorem faulty_of_readExpected {expected : Tag} {r after : Reader} {fault : DecodeError}
    (failed : r.readExpected expected = (.error fault, after)) : r.Faulty after fault := by
  rw [readExpected] at failed
  split at failed
  next read =>
    cases failed
    exact faulty_of_readElement read
  next =>
    split at failed
    next => cases failed
    next other =>
      cases failed
      exact other

theorem readElement_of_readExpected {expected : Tag} {r after : Reader} {e : Element}
    (read : r.readExpected expected = (.ok e, after)) : r.readElement = (.ok e, after) := by
  rw [readExpected] at read
  split at read
  next => cases read
  next taken =>
    split at read
    next =>
      cases read
      exact taken
    next => cases read

theorem remaining_of_finish {r : Reader} (finished : r.finish = .ok ()) : r.remaining = 0 := by
  rw [finish] at finished
  split at finished
  next none => exact List.length_eq_zero_iff.mpr (List.isEmpty_iff.mp none)
  next => cases finished

theorem faulty_of_finish {r : Reader} {fault : DecodeError} (failed : r.finish = .error fault) :
    r.Faulty r fault := by
  rw [finish] at failed
  split at failed
  next => cases failed
  next more =>
    cases failed
    refine ⟨rfl, fun none => more ?_⟩
    exact List.isEmpty_iff.mpr (List.length_eq_zero_iff.mp none)

end Reader

end TrustSchema.Ber
