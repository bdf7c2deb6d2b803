import TrustSchema.Text.Basic

/-!
Why a text is not a TOML document.
-/

namespace TrustSchema.Toml

/-- How deep arrays and inline tables may nest, and how many parts a key may have. -/
def maxDepth : Nat := 79

/-- What is wrong with a TOML document. -/
inductive Fault where
  | badKey
  | missingEquals
  | badHeader
  | badValue
  | unclosedString
  | badEscape
  /-- An integer does not fit 64 bits, or a number with a fraction is too large. -/
  | numberRange
  | unclosedArray
  | unclosedTable
  /-- Something follows where a line must end. -/
  | trailingText
  /-- A key or a table is defined twice. -/
  | duplicate (key : Text)
  /-- A key or header goes on from a value that is complete. -/
  | notTable (key : Text)
  | tooDeep
  deriving DecidableEq, Repr

/-- The description of a fault. -/
def Fault.reason : Fault → String
  | .badKey => "invalid key"
  | .missingEquals => "expected '='"
  | .badHeader => "invalid table header"
  | .badValue => "invalid value"
  | .unclosedString => "invalid or unclosed string"
  | .badEscape => "invalid escape sequence"
  | .numberRange => "number out of range"
  | .unclosedArray => "invalid or unclosed array"
  | .unclosedTable => "invalid or unclosed inline table"
  | .trailingText => "expected the end of the line"
  | .duplicate key => "duplicate key `" ++ String.ofList key ++ "`"
  | .notTable key => "key `" ++ String.ofList key ++ "` is no table"
  | .tooDeep => "recursion limit exceeded"

end TrustSchema.Toml
