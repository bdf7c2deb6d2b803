import TrustSchema.Text.Numeral

/-!
Object identifiers by their contents octets, and their text. The first octet stands for the first
two arcs, and the others for one arc each, in groups of seven bits with the top bit set on all
groups of an arc but the last.
-/

namespace TrustSchema.Key

/-- The contents octets of an object identifier. -/
structure ObjectIdentifier where
  octets : Bytes
  deriving DecidableEq, Repr

namespace ObjectIdentifier

/-- The algorithm identifier of RSA encryption. -/
def rsaEncryption : ObjectIdentifier :=
  ⟨[0x2A, 0x86, 0x48, 0x86, 0xF7, 0x0D, 0x01, 0x01, 0x01]⟩

/-- The object identifier with given contents, which may not be empty or end inside an arc. -/
def ofContents? (contents : Bytes) : Option ObjectIdentifier :=
  match contents.getLast? with
  | some last => if last < 0x80 then some ⟨contents⟩ else none
  | none => none

/-- The arcs that octets write, each as its value and its number of octets. The first two arguments
are those of the arc that is being read. -/
def arcs (value count : Nat) : Bytes → List (Nat × Nat)
  | [] => []
  | b :: rest =>
    let value := value * 128 + b.toNat % 128
    if b.toNat < 128 then (value, count + 1) :: arcs 0 0 rest else arcs value (count + 1) rest

/-- An arc of more octets than this may not fit 64 bits. -/
def maxArcOctets : Nat := 9

/-- The dotted text of an object identifier. The single octet zero is written as one arc. Where an
arc may not fit 64 bits, the octets are written in hexadecimal instead. -/
def toText (oid : ObjectIdentifier) : Text :=
  match oid.octets with
  | [] => []
  | [0] => ['0']
  | first :: rest =>
    let written := arcs 0 0 rest
    if written.any fun (_, count) => maxArcOctets < count then
      List.intercalate [' '] (oid.octets.map Text.hexOfByte)
    else
      List.intercalate ['.']
        ((first.toNat / 40 :: first.toNat % 40 :: written.map Prod.fst).map Text.ofNat)

end ObjectIdentifier

end TrustSchema.Key
