import TrustSchema.Regex.CharSet
import TrustSchema.Text.Utf8

/-!
Sets of characters as sequences of octet ranges. The characters of a range whose UTF-8 forms have
the same number of octets, and which fill whole blocks of what the last octets can say, have the
forms that a sequence of octet ranges gives.
-/

namespace TrustSchema.Regex

/-- The octets from `first` to `last`. -/
structure OctetRange where
  first : UInt8
  last : UInt8
  deriving DecidableEq, Repr

/-- Code points whose UTF-8 forms have the same number of octets. -/
structure EqualLength where
  first : Nat
  last : Nat
  /-- How many code points the last octet, the last two and so on can tell apart after a first
  octet. -/
  blocks : List Nat

/-- The code points of all characters. Those of three octets leave out the code points that are no
characters. -/
def equalLengths : List EqualLength :=
  [⟨0, 0x7F, []⟩, ⟨0x80, 0x7FF, [0x40]⟩, ⟨0x800, 0xD7FF, [0x40, 0x1000]⟩,
   ⟨0xE000, 0xFFFF, [0x40, 0x1000]⟩, ⟨0x10000, 0x10FFFF, [0x40, 0x1000, 0x40000]⟩]

/-- A range in pieces that each fill whole blocks, or lie in a single one: what comes before the
first whole block, the whole blocks, cut further along larger blocks, and what comes after the last
one. -/
def blockPieces : List Nat → Nat → Nat → List (Nat × Nat)
  | [], first, last => [(first, last)]
  | block :: larger, first, last =>
    if first / block = last / block then [(first, last)]
    else
      let wholeStart := (first + block - 1) / block * block
      let wholeEnd := (last + 1) / block * block
      (if first < wholeStart then [(first, wholeStart - 1)] else []) ++
        (if wholeStart < wholeEnd then blockPieces larger wholeStart (wholeEnd - 1) else []) ++
        (if wholeEnd ≤ last then [(wholeEnd, last)] else [])

/-- The octet ranges between the UTF-8 forms of two characters. -/
def octetRanges (first last : Nat) : List OctetRange :=
  List.zipWith OctetRange.mk (String.utf8EncodeChar (Char.ofNat first))
    (String.utf8EncodeChar (Char.ofNat last))

/-- The sequences of octet ranges for the characters of a range. -/
def rangeSequences (first last : Char) : List (List OctetRange) :=
  equalLengths.flatMap fun range =>
    let first := Nat.max range.first first.toNat
    let last := Nat.min range.last last.toNat
    if first ≤ last then
      (blockPieces range.blocks first last).map fun (first, last) => octetRanges first last
    else []

/-- The sequences of octet ranges for the characters of a set, in ascending order. -/
def CharSet.sequences (s : CharSet) : List (List OctetRange) :=
  s.ranges.flatMap fun (first, last) => rangeSequences first last

end TrustSchema.Regex
