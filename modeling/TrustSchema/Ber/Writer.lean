import TrustSchema.Ber.Tag

/-!
Writing BER elements in their canonical form: the shortest identifier octets, the shortest definite
length, and the contents.
-/

namespace TrustSchema.Ber

/-- A number in octets, the most significant first, without leading zeros. -/
def bigEndian (n : Nat) : Bytes :=
  if n = 0 then [] else bigEndian (n / 256) ++ [UInt8.ofNat (n % 256)]

/-- The shortest length octets: the length itself below 128, and otherwise the number of octets
that it takes, with the top bit set, before those octets. -/
def encodeLength (length : Nat) : Bytes :=
  if length < 128 then [UInt8.ofNat length]
  else
    let octets := bigEndian length
    UInt8.ofNat (128 + octets.length) :: octets

/-- The canonical form of an element. -/
def encodeElement (tag : Tag) (contents : Bytes) : Bytes :=
  tag.encode ++ encodeLength contents.length ++ contents

/-- An element by its parts: octets, or elements inside it. -/
inductive Tree where
  | leaf (tag : Tag) (contents : Bytes)
  | node (tag : Tag) (children : List Tree)

mutual

/-- The canonical form of a tree of elements. -/
def Tree.encode : Tree → Bytes
  | .leaf tag contents => encodeElement tag contents
  | .node tag children => encodeElement tag (encodeForest children)

/-- The canonical forms of trees, one after another. -/
def encodeForest : List Tree → Bytes
  | [] => []
  | tree :: rest => tree.encode ++ encodeForest rest

end

end TrustSchema.Ber
