import TrustSchema.Ber.Error

/-!
Reading BER elements one after another. A reader holds the octets that are still unread and the
offset of the first of them in the whole input. A read gives its result and the reader after it,
also when it fails: what it consumed before the fault stays consumed.
-/

namespace TrustSchema.Ber

/-- A place in the input, and what is unread of the window there. -/
structure Reader where
  offset : Nat
  unread : Bytes
  deriving DecidableEq, Repr

/-- The outcome of a read, and the reader after it. -/
abbrev Read (α : Type) := Except DecodeError α × Reader

/-- The length that an element states. -/
inductive Length where
  | definite (length : Nat)
  | indefinite
  deriving DecidableEq, Repr

/-- The tag and the length of an element, and where its identifier octets begin. -/
structure Header where
  tag : Tag
  length : Length
  offset : Nat
  deriving DecidableEq, Repr

/-- An element whose contents lie inside the input, and where they begin. -/
structure Element where
  tag : Tag
  contents : Bytes
  offset : Nat
  deriving DecidableEq, Repr

/-- How many octets may state a length. -/
def maxLengthOctets : Nat := 4

/-- Tag numbers are below this bound. -/
def tagNumberBound : Nat := UInt32.size

namespace Reader

/-- The reader of a whole input. -/
def ofBytes (input : Bytes) : Reader := ⟨0, input⟩

/-- How many octets are unread. -/
def remaining (r : Reader) : Nat := r.unread.length

def isEmpty (r : Reader) : Bool := r.unread.isEmpty

/-- One octet. -/
def readByte (r : Reader) : Read UInt8 :=
  match r.unread with
  | [] => (.error (.truncated r.offset), r)
  | b :: rest => (.ok b, ⟨r.offset + 1, rest⟩)

/-- The groups of a tag number, after the value of those read so far. The tag begins at `start`.
A number that would leave the bound is refused at the octet that would take it there. -/
def readTagNumber (start offset number : Nat) : Bytes → Read Nat
  | [] => (.error (.truncated offset), ⟨offset, []⟩)
  | b :: rest =>
    if tagNumberBound ≤ number * 128 then (.error (.invalidTag start), ⟨offset + 1, rest⟩)
    else
      let number := number * 128 + b.toNat % 128
      if b.toNat < 128 then (.ok number, ⟨offset + 1, rest⟩)
      else readTagNumber start (offset + 1) number rest

/-- The number of a tag in the long form: its first group is not zero with another group after
it, and the number does not fit the short form. -/
def readLongTagNumber (start : Nat) (r : Reader) : Read Nat :=
  if r.unread.head? = some 0x80 then (.error (.invalidTag start), ⟨r.offset + 1, r.unread.tail⟩)
  else
    match readTagNumber start r.offset 0 r.unread with
    | (.error e, after) => (.error e, after)
    | (.ok number, after) =>
      if number < Tag.longForm then (.error (.invalidTag start), after) else (.ok number, after)

/-- Identifier octets. The octet zero only marks the end of contents of indefinite length, so it
begins no tag. -/
def readTag (r : Reader) : Read Tag :=
  match r.readByte with
  | (.error e, after) => (.error e, after)
  | (.ok first, after) =>
    if first = 0 then (.error (.invalidTag r.offset), after)
    else
      let tagClass := TagClass.ofBits (first.toNat / 64)
      let constructed := first.toNat / 32 % 2 = 1
      let number := first.toNat % 32
      if number < Tag.longForm then (.ok ⟨tagClass, constructed, number⟩, after)
      else
        match readLongTagNumber r.offset after with
        | (.error e, after) => (.error e, after)
        | (.ok number, after) => (.ok ⟨tagClass, constructed, number⟩, after)

/-- A number of `count` octets, after the value of those read so far. -/
def readNumber (offset number : Nat) : Nat → Bytes → Read Nat
  | 0, unread => (.ok number, ⟨offset, unread⟩)
  | _ + 1, [] => (.error (.truncated offset), ⟨offset, []⟩)
  | count + 1, b :: rest => readNumber (offset + 1) (number * 256 + b.toNat) count rest

/-- Length octets. The octet 255 is reserved, and at most four octets may follow the first. -/
def readLength (r : Reader) : Read Length :=
  match r.readByte with
  | (.error e, after) => (.error e, after)
  | (.ok first, after) =>
    if first < 0x80 then (.ok (.definite first.toNat), after)
    else if first = 0x80 then (.ok .indefinite, after)
    else if maxLengthOctets < first.toNat - 128 then (.error (.invalidLength r.offset), after)
    else
      match readNumber after.offset 0 (first.toNat - 128) after.unread with
      | (.error e, after) => (.error e, after)
      | (.ok length, after) => (.ok (.definite length), after)

/-- Identifier and length octets. -/
def readHeader (r : Reader) : Read Header :=
  match r.readTag with
  | (.error e, after) => (.error e, after)
  | (.ok tag, after) =>
    match after.readLength with
    | (.error e, after) => (.error e, after)
    | (.ok length, after) => (.ok ⟨tag, length, r.offset⟩, after)

/-- An element of definite length. -/
def readElement (r : Reader) : Read Element :=
  match r.readHeader with
  | (.error e, after) => (.error e, after)
  | (.ok header, after) =>
    match header.length with
    | .indefinite => (.error (.indefiniteLength header.offset), after)
    | .definite length =>
      if after.remaining < length then
        (.error (.lengthOverrun header.offset length after.remaining), after)
      else
        (.ok ⟨header.tag, after.unread.take length, after.offset⟩,
          ⟨after.offset + length, after.unread.drop length⟩)

/-- An element of definite length with a given tag. An element with another one is consumed too. -/
def readExpected (expected : Tag) (r : Reader) : Read Element :=
  match r.readElement with
  | (.error e, after) => (.error e, after)
  | (.ok element, after) =>
    if element.tag = expected then (.ok element, after)
    else (.error (.unexpectedTag expected element.tag), after)

/-- Whether everything is read; otherwise how much is left. -/
def finish (r : Reader) : Except DecodeError Unit :=
  if r.isEmpty then .ok () else .error (.trailingData r.remaining)

/-! No read makes the unread part longer, and an element takes at least one octet. -/

theorem remaining_readByte (r : Reader) : r.readByte.2.remaining ≤ r.remaining := by
  unfold readByte remaining
  split
  · exact Nat.le_refl _
  · simp_all

theorem remaining_readTagNumber (start offset number : Nat) (unread : Bytes) :
    (readTagNumber start offset number unread).2.remaining ≤ unread.length := by
  fun_induction readTagNumber start offset number unread with
  | case1 => simp [remaining]
  | case2 | case3 => simp [remaining]
  | case4 offset number b rest _ _ _ ih => exact Nat.le_succ_of_le ih

theorem remaining_readLongTagNumber (start : Nat) (r : Reader) :
    (r.readLongTagNumber start).2.remaining ≤ r.remaining := by
  have inner := remaining_readTagNumber start r.offset 0 r.unread
  unfold readLongTagNumber
  split
  · simp [remaining]
  · split
    · simp_all [remaining]
    · split <;> simp_all [remaining]

theorem remaining_readTag_lt {r : Reader} {tag : Tag} {after : Reader}
    (read : r.readTag = (.ok tag, after)) : after.remaining < r.remaining := by
  obtain ⟨offset, unread⟩ := r
  cases unread with
  | nil => simp [readTag, readByte] at read
  | cons b rest =>
    have long := remaining_readLongTagNumber offset ⟨offset + 1, rest⟩
    simp only [readTag, readByte] at read
    split at read
    · simp at read
    · split at read
      · simp only [Prod.mk.injEq] at read
        simp [← read.2, remaining]
      · split at read
        · simp at read
        · rename_i number later inner
          simp only [Prod.mk.injEq] at read
          simp only [inner] at long
          simp only [remaining, List.length_cons, ← read.2] at long ⊢
          omega

theorem remaining_readNumber (offset number count : Nat) (unread : Bytes) :
    (readNumber offset number count unread).2.remaining ≤ unread.length := by
  fun_induction readNumber offset number count unread with
  | case1 | case2 => simp [remaining]
  | case3 offset number count b rest ih => exact Nat.le_succ_of_le ih

theorem remaining_readLength (r : Reader) : r.readLength.2.remaining ≤ r.remaining := by
  have first := remaining_readByte r
  unfold readLength
  split
  · simp_all
  · rename_i b after read
    simp only [read] at first
    have number := remaining_readNumber after.offset 0 (b.toNat - 128) after.unread
    split
    · exact first
    · split
      · exact first
      · split
        · exact first
        · split <;> simp_all [remaining] <;> omega

theorem remaining_readHeader_lt {r : Reader} {header : Header} {after : Reader}
    (read : r.readHeader = (.ok header, after)) : after.remaining < r.remaining := by
  unfold readHeader at read
  split at read
  · simp at read
  · rename_i tag middle tagRead
    have first := remaining_readTag_lt tagRead
    have second := remaining_readLength middle
    split at read
    · simp at read
    · rename_i length last lengthRead
      simp only [Prod.mk.injEq] at read
      simp only [lengthRead, read.2] at second
      omega

theorem remaining_readElement_lt {r : Reader} {element : Element} {after : Reader}
    (read : r.readElement = (.ok element, after)) : after.remaining < r.remaining := by
  unfold readElement at read
  split at read
  · simp at read
  · rename_i header middle headerRead
    have first := remaining_readHeader_lt headerRead
    split at read
    · simp at read
    · split at read
      · simp at read
      · simp only [Prod.mk.injEq] at read
        simp only [remaining, ← read.2, List.length_drop] at first ⊢
        omega

end Reader

/-- The reader of the contents of an element. -/
def Element.reader (e : Element) : Reader := ⟨e.offset, e.contents⟩

end TrustSchema.Ber
