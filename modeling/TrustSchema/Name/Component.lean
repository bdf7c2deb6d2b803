import TrustSchema.Name.Error
import TrustSchema.Text.Blank
import TrustSchema.Text.Percent

/-!
A name component is an arbitrary string of octets. Its URI form is the percent-escaped text; a
component of periods only, the empty one included, is written with three periods more, so that no
component is written as the empty text, `.` or `..`.
-/

namespace TrustSchema

/-- One component of a name. -/
structure Component where
  bytes : Bytes
  deriving DecidableEq, Repr

namespace Component

/-- The octet of a period. -/
def period : UInt8 := 0x2E

/-- Whether a string of octets consists of periods only; the empty one does. -/
def allPeriods (bytes : Bytes) : Bool :=
  bytes.all (· == period)

/-- The component that consists of the UTF-8 octets of a text, nothing unescaped. -/
def ofText (text : Text) : Component :=
  ⟨Text.toUtf8 text⟩

/-- How many octets a component has. -/
def size (c : Component) : Nat :=
  c.bytes.length

/-- The URI form of a component. -/
def toUri (c : Component) : Text :=
  (if allPeriods c.bytes then ['.', '.', '.'] else []) ++ Text.Percent.encode c.bytes

/-- The component that a URI segment stands for. White space around the segment is ignored, and a
segment of periods only loses three of them. -/
def ofUri? (segment : Text) : Except NameError Component :=
  let trimmed := Text.trim segment
  match Text.Percent.decode? trimmed with
  | none => .error (.invalidEscape trimmed)
  | some bytes =>
    if allPeriods bytes then
      if bytes.length < 3 then .error (.illegalComponent trimmed) else .ok ⟨bytes.drop 3⟩
    else .ok ⟨bytes⟩

/-- The canonical order of components: a shorter one first, equal lengths octet by octet. -/
def order (a b : Component) : Ordering :=
  (compare a.bytes.length b.bytes.length).then (List.compareLex compare a.bytes b.bytes)

instance : Ord Component := ⟨order⟩

end Component

end TrustSchema
