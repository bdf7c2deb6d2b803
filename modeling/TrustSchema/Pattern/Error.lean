import TrustSchema.Regex.Error
import TrustSchema.Text.Numeral

/-!
Why a text is not a name pattern. Offsets count bytes from the beginning of the elements, which is
after a leading `^`.
-/

namespace TrustSchema

namespace Pattern

/-- What is wrong with a name pattern. -/
inductive Fault where
  | unterminatedComponent
  /-- The text between angle brackets is no test. -/
  | invalidComponent (written : Text) (cause : Regex.Fault)
  | unterminatedSet
  | emptySet
  /-- Something else than a component test stands in a set. -/
  | notInSet
  | unclosedGroup
  | unopenedGroup
  /-- A repetition stands where no element precedes it. -/
  | nothingToRepeat (c : Char) (offset : Nat)
  /-- An anchor of the beginning stands at another place. -/
  | misplacedStart
  /-- An anchor of the end stands at another place. -/
  | misplacedEnd
  | unexpected (c : Char) (offset : Nat)
  | unterminatedBounds
  | invalidBounds (written : Text)
  /-- There is no number between the braces. -/
  | emptyBounds (withComma : Bool)
  /-- The least number is above the greatest. -/
  | invertedBounds (written : Text)
  deriving DecidableEq, Repr

/-- A text between braces. -/
def inBraces (text : Text) : String :=
  "\x7b" ++ String.ofList text ++ "\x7d"

/-- The description of a fault. -/
def Fault.reason : Fault → String
  | .unterminatedComponent => "unterminated '<'"
  | .invalidComponent written cause =>
    "invalid component pattern <" ++ String.ofList written ++ ">: " ++ cause.message
  | .unterminatedSet => "unterminated '['"
  | .emptySet => "empty component set"
  | .notInSet => "only <...> elements may appear inside [...]"
  | .unclosedGroup => "unbalanced '('"
  | .unopenedGroup => "unbalanced ')'"
  | .nothingToRepeat c offset =>
    "repetition '" ++ String.ofList [c] ++ "' at offset " ++ toString offset ++
      " has nothing to repeat"
  | .misplacedStart => "'^' is only allowed at the start"
  | .misplacedEnd => "'$' is only allowed at the end"
  | .unexpected c offset =>
    "unexpected '" ++ String.ofList [c] ++ "' at offset " ++ toString offset
  | .unterminatedBounds => "unterminated '\x7b'"
  | .invalidBounds written => "invalid repetition bounds " ++ inBraces written
  | .emptyBounds withComma =>
    "empty repetition bounds " ++ inBraces (if withComma then [','] else [])
  | .invertedBounds written => "inverted repetition bounds " ++ inBraces written

end Pattern

/-- A pattern and what is wrong with it. -/
structure PatternError where
  pattern : Text
  fault : Pattern.Fault
  deriving DecidableEq, Repr

/-- The report of a pattern error. -/
def PatternError.message (e : PatternError) : String :=
  "invalid name pattern `" ++ String.ofList e.pattern ++ "`: " ++ e.fault.reason

end TrustSchema
