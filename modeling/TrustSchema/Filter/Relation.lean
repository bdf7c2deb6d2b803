import TrustSchema.Name.Basic
import TrustSchema.Text.Keyword

/-!
The three relations in which the name of a rule can stand to the names that it covers.
-/

namespace TrustSchema

/-- How the name of a rule relates to the names that it covers. -/
inductive Relation where
  | equal
  | isPrefixOf
  /-- The rule does not cover its own name. -/
  | isStrictPrefixOf
  deriving DecidableEq, Repr

namespace Relation

/-- The keyword of a relation. -/
def word : Relation → Text
  | equal => "equal".toList
  | isPrefixOf => "is-prefix-of".toList
  | isStrictPrefixOf => "is-strict-prefix-of".toList

/-- The relation with a given keyword, up to the case of ASCII letters. -/
def ofWord? (text : Text) : Option Relation :=
  [equal, isPrefixOf, isStrictPrefixOf].find? fun r => Text.sameWord r.word text

/-- Whether the name of a rule stands in a relation to another name. -/
def holds (r : Relation) (rule name : Name) : Bool :=
  match r with
  | equal => rule == name
  | isPrefixOf => rule.isPrefixOf name
  | isStrictPrefixOf => decide (rule.size < name.size) && rule.isPrefixOf name

end Relation

end TrustSchema
