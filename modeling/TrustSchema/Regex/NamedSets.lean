import TrustSchema.Regex.CharSet
import TrustSchema.Regex.CharTables

/-!
The sets of characters that expressions name. Outside Unicode mode they are those of ASCII.
-/

namespace TrustSchema.Regex.CharSet

/-- Decimal digits. -/
def digits (unicode : Bool) : CharSet :=
  if unicode then ofCodePoints digitRanges else range '0' '9'

/-- White space. -/
def space (unicode : Bool) : CharSet :=
  if unicode then ofCodePoints Text.blankRanges else ofRanges [('\t', '\r'), (' ', ' ')]

/-- The characters of words. -/
def word (unicode : Bool) : CharSet :=
  if unicode then ofCodePoints wordRanges
  else ofRanges [('0', '9'), ('A', 'Z'), ('_', '_'), ('a', 'z')]

/-- The characters that a period stands for: all of them, or all but those that end lines. -/
def period (dotAll crlf : Bool) : CharSet :=
  if dotAll then all
  else if crlf then compl (ofRanges [('\n', '\n'), ('\r', '\r')])
  else compl (only '\n')

end TrustSchema.Regex.CharSet
