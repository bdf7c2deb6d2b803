import TrustSchema.Name.Uri
import TrustSchema.Pattern.Language

/-!
Name patterns, and which names they match. A pattern is a sequence of elements with bounds on their
repetition: tests on one component, and groups of elements. It is followed through a name as a set
of positions, one element after another, so that every way to divide the name among the elements is
tried at once.
-/

namespace TrustSchema

namespace Pattern

/-- A test on one component. -/
inductive ComponentPattern (α : Type) where
  /-- Every component passes. -/
  | any
  /-- The text of the component passes a test of the language. -/
  | expression (test : α)

/-- Alternatives of tests on one component. -/
inductive ComponentTest (α : Type) where
  | single (member : ComponentPattern α)
  /-- At least one of the members accepts, or none of them if the set is negated. -/
  | set (negated : Bool) (members : List (ComponentPattern α))

/-- An element of a pattern with the bounds on its repetition. -/
inductive Node (α : Type) where
  | one (test : ComponentTest α) (bounds : Bounds)
  | group (inner : List (Node α)) (bounds : Bounds)

variable {α : Type} [ComponentLanguage α]

/-- Whether the text of a component passes. -/
def ComponentPattern.accepts (p : ComponentPattern α) (text : Text) : Bool :=
  match p with
  | any => true
  | expression test => ComponentLanguage.accepts test text

/-- Whether the text of a component passes. -/
def ComponentTest.accepts (t : ComponentTest α) (text : Text) : Bool :=
  match t with
  | single member => member.accepts text
  | set negated members => (members.any (·.accepts text)) != negated

mutual

/-- The positions that an element leads to from a set of positions. -/
def Node.advance (texts : List Text) (node : Node α) (s : Positions texts.length) :
    Positions texts.length :=
  match node with
  | .one test bounds =>
    Positions.afterRepeats (Positions.pass (Positions.ofBits (texts.map test.accepts))) bounds s
  | .group inner bounds => Positions.afterRepeats (advanceAll texts inner) bounds s

/-- The positions that a sequence of elements leads to from a set of positions. -/
def advanceAll (texts : List Text) (nodes : List (Node α)) (s : Positions texts.length) :
    Positions texts.length :=
  match nodes with
  | [] => s
  | node :: rest => advanceAll texts rest (node.advance texts s)

end

end Pattern

/-- A name pattern: its text, whether it is tied to the beginning and to the end of the name, and
its elements. -/
structure Pattern (α : Type) where
  text : Text
  anchoredStart : Bool
  anchoredEnd : Bool
  nodes : List (Pattern.Node α)

namespace Pattern

variable {α : Type} [ComponentLanguage α]

/-- The positions at which a match of the pattern can end. -/
def ends (p : Pattern α) (texts : List Text) : Positions texts.length :=
  advanceAll texts p.nodes (if p.anchoredStart then Positions.first else Positions.all)

/-- Whether a pattern matches a sequence of component texts. -/
def matchesTexts (p : Pattern α) (texts : List Text) : Bool :=
  if p.anchoredEnd then (p.ends texts).has texts.length else !(p.ends texts).isEmpty

/-- Whether a pattern matches a name. Tests look at the URI form of components. -/
def matchesName (p : Pattern α) (n : Name) : Bool :=
  p.matchesTexts (n.components.map Component.toUri)

end Pattern

end TrustSchema
