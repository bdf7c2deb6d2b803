import TrustSchema.Name.Basic

/-!
Signed packets, as far as trust decisions look at them: their kind and their name. The name of an
Interest still carries the two components of its signature.
-/

namespace TrustSchema

/-- The kinds of signed packet. -/
inductive PacketKind where
  | data
  | interest
  deriving DecidableEq, Repr

namespace PacketKind

/-- The word for a kind of packet. -/
def word : PacketKind → Text
  | .data => ['d', 'a', 't', 'a']
  | .interest => ['i', 'n', 't', 'e', 'r', 'e', 's', 't']

/-- The kind that a word names, in exactly this spelling. -/
def ofWord? (text : Text) : Option PacketKind :=
  [data, interest].find? (·.word == text)

end PacketKind

/-- A signed packet. -/
structure Packet where
  kind : PacketKind
  name : Name
  deriving DecidableEq, Repr

end TrustSchema
