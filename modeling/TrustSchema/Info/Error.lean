import TrustSchema.Text.Basic

/-!
Why a text is not a configuration text, with the line on which the fault is found. Lines are
counted from one.
-/

namespace TrustSchema.Info

/-- How deep blocks may nest. -/
def maxDepth : Nat := 64

/-- What is wrong with a configuration text. -/
inductive Fault where
  /-- A backslash in a quoted word is followed by something else than `n`, `t`, `"` or `\`. -/
  | unknownEscape (c : Char)
  /-- A quoted word does not end on the line on which it begins. -/
  | unterminatedString
  /-- A block is closed where none is open. -/
  | unmatchedClose
  /-- A block opens where no key stands before it. -/
  | blockWithoutKey
  /-- A third word stands on the line of a key and its value. -/
  | unexpectedWord (word key : Text)
  /-- A block opens inside `maxDepth` others. -/
  | tooDeep
  /-- The text ends inside a block. -/
  | unterminatedBlock
  deriving DecidableEq, Repr

/-- A fault and its line. -/
structure SyntaxError where
  line : Nat
  fault : Fault
  deriving DecidableEq, Repr

/-- The description of a fault, without its line. -/
def Fault.reason : Fault → String
  | .unknownEscape c => "unknown escape sequence \\" ++ String.ofList [c]
  | .unterminatedString => "unterminated string"
  | .unmatchedClose => "unmatched '\x7d'"
  | .blockWithoutKey => "'\x7b' without a key"
  | .unexpectedWord word key =>
    "unexpected '" ++ String.ofList word ++ "' after value of '" ++ String.ofList key ++ "'"
  | .tooDeep => "sections nested deeper than " ++ toString maxDepth ++ " levels"
  | .unterminatedBlock => "unterminated '\x7b'"

/-- The report of a configuration text error. -/
def SyntaxError.message (e : SyntaxError) : String :=
  "configuration syntax error at line " ++ toString e.line ++ ": " ++ e.fault.reason

end TrustSchema.Info
