import TrustSchema.Filter.Relation
import TrustSchema.Packet
import TrustSchema.Pattern.Parser

/-!
Filters decide which signed packets a rule covers, by name. A policy is a list of filters; it admits
a packet that one of them covers, and every packet if it has none.
-/

namespace TrustSchema

/-- How many components of the name of an Interest hold its signature. -/
def signatureComponents : Nat := 2

/-- The name that rules look at: that of the packet without the components of a signature. An
Interest that is too short to carry them has none. -/
def Packet.signedName? (p : Packet) : Option Name :=
  match p.kind with
  | .data => some p.name
  | .interest => p.name.dropEnd? signatureComponents

/-- A filter: a relation to a name, or a name pattern. -/
inductive Filter (α : Type) where
  | relation (r : Relation) (name : Name)
  | pattern (p : Pattern α)

namespace Filter

/-- The filter of a pattern that is given as a text. -/
def ofPattern? {α : Type} [ComponentLanguage α] (text : Text) : Except PatternError (Filter α) :=
  (Pattern.compile? text).map pattern

/-- The text of a filter in reports. -/
def describe {α : Type} : Filter α → Text
  | relation r name => r.word ++ ' ' :: name.toUri
  | pattern p => "regex ".toList ++ p.text

variable {α : Type} [ComponentLanguage α]

/-- Whether a filter covers a name. -/
def coversName (f : Filter α) (name : Name) : Bool :=
  match f with
  | relation r rule => r.holds rule name
  | pattern p => p.matchesName name

/-- Whether a filter covers a packet. -/
def covers (f : Filter α) (p : Packet) : Bool :=
  p.signedName?.any f.coversName

end Filter

/-- The filters of a policy, in order. -/
structure Policy (α : Type) where
  filters : List (Filter α)

namespace Policy

variable {α : Type} [ComponentLanguage α]

/-- The place of the first filter that covers a packet. -/
def firstMatch? (policy : Policy α) (p : Packet) : Option Nat :=
  policy.filters.findIdx? (·.covers p)

/-- Whether a policy lets a packet pass. Without filters every packet passes. -/
def admits (policy : Policy α) (p : Packet) : Bool :=
  policy.filters.isEmpty || (policy.firstMatch? p).isSome

end Policy

end TrustSchema
