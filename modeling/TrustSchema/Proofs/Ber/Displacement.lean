import TrustSchema.Ber.Reader

/-!
The same octets further on in an input. A reader there reads the same elements and meets the same
faults, and all places that they tell are further on by as much.
-/

namespace TrustSchema.Ber

/-- The place that a fault tells, if it tells one. -/
def DecodeError.offset? : DecodeError → Option Nat
  | .truncated offset | .invalidTag offset | .indefiniteLength offset | .invalidLength offset
  | .lengthOverrun offset _ _ => some offset
  | .unexpectedTag _ _ | .trailingData _ | .invalidObjectIdentifier => none

/-- The same fault `distance` octets further on. -/
def DecodeError.displace (distance : Nat) : DecodeError → DecodeError
  | .truncated offset => .truncated (offset + distance)
  | .invalidTag offset => .invalidTag (offset + distance)
  | .indefiniteLength offset => .indefiniteLength (offset + distance)
  | .invalidLength offset => .invalidLength (offset + distance)
  | .lengthOverrun offset length remaining => .lengthOverrun (offset + distance) length remaining
  | .unexpectedTag expected found => .unexpectedTag expected found
  | .trailingData count => .trailingData count
  | .invalidObjectIdentifier => .invalidObjectIdentifier

@[simp] theorem DecodeError.displace_zero (fault : DecodeError) : fault.displace 0 = fault := by
  cases fault with
  | _ => rfl

theorem DecodeError.offset?_displace (fault : DecodeError) (distance : Nat) :
    (fault.displace distance).offset? = fault.offset?.map (· + distance) := by
  cases fault with
  | _ => rfl

/-- The reader of the same octets `distance` octets further on. -/
def Reader.displace (distance : Nat) (r : Reader) : Reader :=
  ⟨r.offset + distance, r.unread⟩

/-- The same header further on. -/
def Header.displace (distance : Nat) (h : Header) : Header :=
  { h with offset := h.offset + distance }

/-- The same element further on. -/
def Element.displace (distance : Nat) (e : Element) : Element :=
  { e with offset := e.offset + distance }

theorem Element.reader_displace (e : Element) (distance : Nat) :
    (e.displace distance).reader = e.reader.displace distance :=
  rfl

/-- What a read gives further on, where `move` takes its value there. -/
def displaced {α : Type} (distance : Nat) (move : α → α) (read : Read α) : Read α :=
  ((read.1.map move).mapError (.displace distance), read.2.displace distance)

@[simp] theorem displaced_error {α : Type} (distance : Nat) (move : α → α) (fault : DecodeError)
    (after : Reader) : displaced distance move (.error fault, after) =
      (.error (fault.displace distance), after.displace distance) :=
  rfl

@[simp] theorem displaced_ok {α : Type} (distance : Nat) (move : α → α) (value : α)
    (after : Reader) :
    displaced distance move (.ok value, after) = (.ok (move value), after.displace distance) :=
  rfl

namespace Reader

variable (distance : Nat)

theorem readByte_displace (r : Reader) :
    (r.displace distance).readByte = displaced distance id r.readByte := by
  obtain ⟨offset, unread⟩ := r
  cases unread with
  | nil => rfl
  | cons b rest =>
    rw [displace, readByte, Nat.add_right_comm]
    rfl

theorem readTagNumber_displace (start offset number : Nat) (unread : Bytes) :
    readTagNumber (start + distance) (offset + distance) number unread =
      displaced distance id (readTagNumber start offset number unread) := by
  fun_induction readTagNumber start offset number unread with
  | case1 => rfl
  | case2 offset number b rest full =>
    rw [readTagNumber, if_pos full, Nat.add_right_comm]
    rfl
  | case3 offset number b rest space _ final =>
    rw [readTagNumber, if_neg space, if_pos final, Nat.add_right_comm]
    rfl
  | case4 offset number b rest space _ more ih =>
    rw [readTagNumber, if_neg space, if_neg more, Nat.add_right_comm]
    exact ih

theorem readLongTagNumber_displace (start : Nat) (r : Reader) :
    (r.displace distance).readLongTagNumber (start + distance) =
      displaced distance id (r.readLongTagNumber start) := by
  have groups := readTagNumber_displace distance start r.offset 0 r.unread
  obtain ⟨offset, unread⟩ := r
  by_cases padded : unread.head? = some 0x80
  · simp only [readLongTagNumber, displace, padded, if_true, displaced_error,
      DecodeError.displace, Nat.add_right_comm]
  · simp only [readLongTagNumber, displace, if_neg padded, groups]
    rcases readTagNumber start offset 0 unread with ⟨⟨fault⟩ | ⟨number⟩, after⟩
    · rfl
    · simp only [displaced_ok, id]
      split <;> rfl

theorem readTag_displace (r : Reader) :
    (r.displace distance).readTag = displaced distance id r.readTag := by
  rw [readTag, readTag, readByte_displace]
  rcases r.readByte with ⟨⟨fault⟩ | ⟨first⟩, after⟩
  · rfl
  · have number := readLongTagNumber_displace distance r.offset after
    simp only [displaced_ok, id] at number ⊢
    split
    · rfl
    · split
      · rfl
      · simp only [displace] at number ⊢
        rw [number]
        rcases after.readLongTagNumber r.offset with ⟨⟨fault⟩ | ⟨number⟩, last⟩ <;> rfl

theorem readNumber_displace (offset number count : Nat) (unread : Bytes) :
    readNumber (offset + distance) number count unread =
      displaced distance id (readNumber offset number count unread) := by
  fun_induction readNumber offset number count unread with
  | case1 | case2 => rfl
  | case3 offset number count b rest ih =>
    rw [readNumber, Nat.add_right_comm]
    exact ih

theorem readLength_displace (r : Reader) :
    (r.displace distance).readLength = displaced distance id r.readLength := by
  rw [readLength, readLength, readByte_displace]
  rcases r.readByte with ⟨⟨fault⟩ | ⟨first⟩, after⟩
  · rfl
  · have number := readNumber_displace distance after.offset 0 (first.toNat - 128) after.unread
    simp only [displaced_ok, id, displace] at number ⊢
    split
    · rfl
    · split
      · rfl
      · split
        · rfl
        · rw [number]
          rcases readNumber after.offset 0 (first.toNat - 128) after.unread with
            ⟨⟨fault⟩ | ⟨length⟩, last⟩ <;> rfl

theorem readHeader_displace (r : Reader) :
    (r.displace distance).readHeader = displaced distance (.displace distance) r.readHeader := by
  rw [readHeader, readHeader, readTag_displace]
  rcases r.readTag with ⟨⟨fault⟩ | ⟨tag⟩, after⟩
  · rfl
  · have length := readLength_displace distance after
    simp only [displaced_ok, id] at length ⊢
    rw [length]
    rcases after.readLength with ⟨⟨fault⟩ | ⟨length⟩, last⟩ <;> rfl

theorem readElement_displace (r : Reader) :
    (r.displace distance).readElement = displaced distance (.displace distance) r.readElement := by
  rw [readElement, readElement, readHeader_displace]
  rcases r.readHeader with ⟨⟨fault⟩ | ⟨header⟩, after⟩
  · rfl
  · simp only [displaced_ok, Header.displace]
    split
    · rfl
    next length _ =>
      -- As much is left in both places.
      change (if after.remaining < length then _ else _) = _
      split
      · rfl
      · simp only [displaced_ok, displace, Element.displace, Nat.add_right_comm]

end Reader

end TrustSchema.Ber
