import TrustSchema.Positions.Repeat
import TrustSchema.Regex.NamedSets

/-!
Regular expressions over the characters of a text, and searching for them. An expression takes a set
of positions of the text to the positions where a match from one of them can end, so that searching
never tries one alternative after another.
-/

namespace TrustSchema

namespace Regex

/-- The conditions on a place of a text. -/
inductive Look where
  | textStart
  | textEnd
  /-- The beginning of a line; `crlf` says whether a carriage return ends lines as well. -/
  | lineStart (crlf : Bool)
  | lineEnd (crlf : Bool)
  | wordBoundary
  | noWordBoundary
  | wordStart
  | wordEnd
  /-- No character of a word precedes. -/
  | wordStartHalf
  /-- No character of a word follows. -/
  | wordEndHalf
  deriving DecidableEq, Repr

/-- Whether a character is there and belongs to a word. -/
def inWord (c : Option Char) : Bool :=
  c.any (CharSet.word true).contains

/-- Whether a line ends between two characters; a missing one means an end of the text. No line ends
between a carriage return and the line feed after it. -/
def atLineEnd (crlf : Bool) (before after : Option Char) : Bool :=
  after.isNone || after == some '\n' && !(crlf && before == some '\r') ||
    crlf && after == some '\r'

/-- Whether a line begins between two characters. -/
def atLineStart (crlf : Bool) (before after : Option Char) : Bool :=
  before.isNone || before == some '\n' ||
    crlf && before == some '\r' && !(after == some '\n')

/-- Whether a condition holds between two characters; a missing one means an end of the text. -/
def Look.holds (look : Look) (before after : Option Char) : Bool :=
  match look with
  | .textStart => before.isNone
  | .textEnd => after.isNone
  | .lineStart crlf => atLineStart crlf before after
  | .lineEnd crlf => atLineEnd crlf before after
  | .wordBoundary => inWord before != inWord after
  | .noWordBoundary => inWord before == inWord after
  | .wordStart => !inWord before && inWord after
  | .wordEnd => inWord before && !inWord after
  | .wordStartHalf => !inWord before
  | .wordEndHalf => !inWord after

/-- For each place of a text, after the character `before`, whether a condition holds there. -/
def Look.places (look : Look) (before : Option Char) : Text → List Bool
  | [] => [look.holds before none]
  | c :: rest => look.holds before (some c) :: look.places (some c) rest

end Regex

/-- A regular expression. -/
inductive Regex where
  /-- The empty match. -/
  | empty
  /-- Given characters, one after another. -/
  | literal (characters : Text)
  /-- One character of a set. -/
  | one (members : Regex.CharSet)
  /-- The empty match where a condition holds. -/
  | look (condition : Regex.Look)
  | seq (first second : Regex)
  | alt (left right : Regex)
  /-- A repetition. Whether it prefers more matches or fewer does not change where it matches. -/
  | repeated (body : Regex) (bounds : Bounds) (greedy : Bool)
  /-- A group that captures what it matches, by its number. -/
  | group (number : Nat) (body : Regex)
  deriving DecidableEq

namespace Regex

/-- Where the character `c` ends when it begins at a position of a set. -/
def passCharacter (text : Text) (s : Positions text.length) (c : Char) : Positions text.length :=
  Positions.pass (Positions.ofBits (text.map (· == c))) s

/-- Where matches end that begin at a position of a set. -/
def ends (text : Text) : Regex → Positions text.length → Positions text.length
  | empty, s => s
  | literal characters, s => characters.foldl (passCharacter text) s
  | one members, s => Positions.pass (Positions.ofBits (text.map members.contains)) s
  | look condition, s => s.inter (Positions.ofBits (condition.places none text))
  | seq first second, s => second.ends text (first.ends text s)
  | alt left right, s => (left.ends text s).union (right.ends text s)
  | repeated body bounds _, s => Positions.afterRepeats (body.ends text) bounds s
  | group _ body, s => body.ends text s

/-- Whether an expression matches somewhere in a text. -/
def search (r : Regex) (text : Text) : Bool :=
  !(r.ends text Positions.all).isEmpty

end Regex

end TrustSchema
