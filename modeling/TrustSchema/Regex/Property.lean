import TrustSchema.Regex.CharSet
import TrustSchema.Text.Keyword

/-!
What a property escape asks for. The Unicode character database is left open: a table says which
properties there are and which characters have them.
-/

namespace TrustSchema.Regex

/-- A set of characters as a property escape asks for it. -/
inductive PropertyQuery where
  /-- A property, a general category or a script by its name. -/
  | named (name : Text)
  /-- The characters for which a property has a value. -/
  | valued (property value : Text)
  deriving DecidableEq, Repr

/-- The Unicode properties that expressions can ask for. -/
class PropertyTable where
  /-- The characters that a query asks for, if the property and its value are known. -/
  members? : PropertyQuery → Option CharSet

/-- A name without the signs that do not count when names are compared. -/
def nameLetters (name : Text) : Text :=
  name.filter fun c => decide (c.toNat < 128) && !(c == ' ' || c == '-' || c == '_')

/-- A name in the form in which names are compared: without regard to case, blanks, hyphens,
underscores and a leading `is`. -/
def propertyKey (name : Text) : Text :=
  match Text.lower name with
  | 'i' :: 's' :: rest =>
    if nameLetters rest = ['c'] then ['i', 's', 'c'] else nameLetters rest
  | lowered => nameLetters lowered

/-- The texts around the first `!=`, if there is one. -/
def cutUnequal : Text → Option (Text × Text)
  | '!' :: '=' :: rest => some ([], rest)
  | c :: rest => (cutUnequal rest).map fun (before, after) => (c :: before, after)
  | [] => none

/-- What the text between the braces of a property escape asks for, and whether it asks for all
characters but these. -/
def propertyQuery (text : Text) : PropertyQuery × Bool :=
  match cutUnequal text with
  | some (property, value) => (.valued property value, true)
  | none =>
    match (Text.cutAt ':' text).or (Text.cutAt '=' text) with
    | some (property, value) => (.valued property value, false)
    | none => (.named text, false)

end TrustSchema.Regex
