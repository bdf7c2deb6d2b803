import TrustSchema.Text.Basic

/-!
Why a text is not a regular expression.
-/

namespace TrustSchema.Regex

/-- How deep groups, repetitions, alternations, sequences and classes may nest. -/
def maxNesting : Nat := 250

/-- How many octets an automaton of an expression may take. -/
def sizeLimit : Nat := 10 * 1024 * 1024

/-- What is wrong with an expression. -/
inductive Fault where
  | unclosedGroup
  | unopenedGroup
  | unclosedClass
  /-- A counted repetition has no closing brace, or something else than its counts before it. -/
  | unclosedCount
  /-- A count is missing, or does not fit 32 bits. -/
  | invalidCount
  /-- The least count is above the greatest. -/
  | invertedCount
  /-- A repetition stands where nothing precedes it. -/
  | nothingToRepeat
  | unfinishedEscape
  | unknownEscape (c : Char)
  /-- A digit after a backslash. -/
  | backreference
  /-- A hexadecimal escape has wrong digits, none, or names no character. -/
  | invalidHex
  | unknownProperty
  | lookAround
  /-- A group name is not closed by an angle bracket. -/
  | unclosedGroupName
  | unknownFlag (c : Char)
  | repeatedFlag (c : Char)
  /-- A second minus sign among flags, or one without a flag after it. -/
  | misplacedNegation
  | unfinishedFlags
  /-- The braces after a word boundary hold no known kind of boundary. -/
  | unknownBoundary
  /-- The first character of a range is above the last. -/
  | invertedRange
  /-- The end of a range is not a single character. -/
  | classAsRangeEnd
  /-- An assertion stands in a class. -/
  | assertionInClass
  /-- Outside Unicode mode, something matches a part of a character. -/
  | invalidUtf8
  /-- Outside Unicode mode, a class names a character or property beyond ASCII. -/
  | unicodeNotAllowed
  | tooNested
  | tooLarge
  deriving DecidableEq, Repr

/-- The description of a fault of the text. -/
def Fault.reason : Fault → String
  | .unclosedGroup => "unclosed group"
  | .unopenedGroup => "unopened group"
  | .unclosedClass => "unclosed character class"
  | .unclosedCount => "unclosed counted repetition"
  | .invalidCount => "invalid repetition count"
  | .invertedCount => "invalid repetition count range, the start must be <= the end"
  | .nothingToRepeat => "repetition operator missing expression"
  | .unfinishedEscape => "incomplete escape sequence, reached end of pattern prematurely"
  | .unknownEscape c => "unrecognized escape sequence \\" ++ String.ofList [c]
  | .backreference => "backreferences are not supported"
  | .invalidHex => "invalid hexadecimal escape"
  | .unknownProperty => "Unicode property not found"
  | .lookAround => "look-around, including look-ahead and look-behind, is not supported"
  | .unclosedGroupName => "unclosed capture group name"
  | .unknownFlag c => "unrecognized flag " ++ String.ofList [c]
  | .repeatedFlag c => "duplicate flag " ++ String.ofList [c]
  | .misplacedNegation => "misplaced flag negation operator"
  | .unfinishedFlags => "expected flag but got end of regex"
  | .unknownBoundary => "unrecognized special word boundary assertion"
  | .invertedRange => "invalid character class range, the start must be <= the end"
  | .classAsRangeEnd => "invalid range boundary, must be a literal"
  | .assertionInClass => "invalid escape sequence found in character class"
  | .invalidUtf8 => "pattern can match invalid UTF-8"
  | .unicodeNotAllowed => "Unicode not allowed here"
  | .tooNested => "exceeded the maximum number of nested groups and classes"
  | .tooLarge => "exceeded the size limit"

/-- The report of a fault. -/
def Fault.message : Fault → String
  | .tooLarge => "Compiled regex exceeds size limit of " ++ toString sizeLimit ++ " bytes."
  | fault => "regex parse error: " ++ fault.reason

end TrustSchema.Regex
