import TrustSchema.Regex.Parser
import TrustSchema.Regex.PropertyNames

/-!
What a name pattern asks of the language in which its component tests are written: to read a test,
and to say whether the text of a component passes it. Name patterns are defined over any such
language. The tests that the tool reads are regular expressions, put between anchors; this is so
over any engine of regular expressions.
-/

namespace TrustSchema

/-- A language of tests on the text of a component. -/
class ComponentLanguage (α : Type) where
  /-- Reads a test that is not empty. -/
  compile : Text → Except Regex.Fault α
  /-- Whether a text passes a test. -/
  accepts : α → Text → Bool

namespace Regex

/-- An engine of regular expressions. -/
class Engine (α : Type) where
  /-- Reads an expression. -/
  new : Text → Except Fault α
  /-- Whether an expression matches somewhere in a text. -/
  isMatch : α → Text → Bool

/-- A regular expression with the signs around it that tie it to both ends of the text. -/
def anchored (written : Text) : Text :=
  ['^', '(', '?', ':'] ++ written ++ [')', '$']

/-- A test is a regular expression between anchors, which is searched for in the text. The anchors
belong to the expression, so parentheses of the test can part them. -/
instance {α : Type} [Engine α] : ComponentLanguage α where
  compile written := Engine.new (anchored written)
  accepts := Engine.isMatch

/-- The engine of the tool. -/
instance [PropertyTable] : Engine Regex where
  new := parse?
  isMatch := search

end Regex

end TrustSchema
