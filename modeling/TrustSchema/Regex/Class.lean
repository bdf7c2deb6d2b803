import TrustSchema.Regex.CaseFolding
import TrustSchema.Regex.Error
import TrustSchema.Regex.NamedSets

/-!
Character classes as they are written, and the sets that they stand for under the flags in force.
-/

namespace TrustSchema.Regex

/-- The flags that a group can set. -/
structure Flags where
  ignoreCase : Bool
  unicode : Bool
  /-- A caret and a dollar sign mean the ends of lines. -/
  multiLine : Bool
  /-- A period means line ends as well. -/
  dotAll : Bool
  /-- A carriage return ends lines as well. -/
  crlf : Bool
  /-- Repetitions prefer fewer matches, and more with a question mark. -/
  swapGreed : Bool
  /-- White space and comments are passed over. -/
  ignoreSpace : Bool
  deriving DecidableEq, Repr

/-- The flags at the beginning of an expression. -/
def Flags.initial : Flags := ⟨false, true, false, false, false, false, false⟩

/-- The classes that a letter after a backslash names. -/
inductive Shorthand where
  | digit
  | space
  | word
  deriving DecidableEq, Repr

/-- The operators between the operands of a class. -/
inductive SetOperator where
  | inter
  | diff
  | symmDiff
  deriving DecidableEq, Repr

/-- A class as it is written. -/
inductive ClassExpr where
  | empty
  | range (first last : Char)
  | shorthand (kind : Shorthand) (negated : Bool)
  /-- A named class of ASCII such as `[:alpha:]`. -/
  | named (members : CharSet) (negated : Bool)
  /-- A Unicode property. -/
  | property (members : CharSet) (negated : Bool)
  | union (a b : ClassExpr)
  | operation (operator : SetOperator) (a b : ClassExpr)
  | bracket (negated : Bool) (inner : ClassExpr)
  deriving DecidableEq

/-- The members of the named classes of ASCII. -/
def namedClass? (name : Text) : Option CharSet :=
  (table.find? fun entry => entry.1.toList = name).map fun entry => CharSet.ofRanges entry.2
where
  table : List (String × List (Char × Char)) :=
    [("alnum", [('0', '9'), ('A', 'Z'), ('a', 'z')]),
     ("alpha", [('A', 'Z'), ('a', 'z')]),
     ("ascii", [('\x00', '\x7F')]),
     ("blank", [('\t', '\t'), (' ', ' ')]),
     ("cntrl", [('\x00', '\x1F'), ('\x7F', '\x7F')]),
     ("digit", [('0', '9')]),
     ("graph", [('!', '~')]),
     ("lower", [('a', 'z')]),
     ("print", [(' ', '~')]),
     ("punct", [('!', '/'), (':', '@'), ('[', '\x60'), ('\x7B', '~')]),
     ("space", [('\t', '\r'), (' ', ' ')]),
     ("upper", [('A', 'Z')]),
     ("word", [('0', '9'), ('A', 'Z'), ('_', '_'), ('a', 'z')]),
     ("xdigit", [('0', '9'), ('A', 'F'), ('a', 'f')])]

namespace Flags

/-- A set with its case variants, if case is ignored. -/
def folded (flags : Flags) (s : CharSet) : CharSet :=
  if flags.ignoreCase then s.fold flags.unicode else s

/-- The complement of a set, if it is asked for. Outside Unicode mode it would match octets that
are no characters. -/
def complemented (flags : Flags) (negated : Bool) (s : CharSet) : Except Fault CharSet :=
  if !negated then .ok s
  else if flags.unicode then .ok s.compl
  else .error .invalidUtf8

/-- The set of a shorthand class. -/
def shorthand (flags : Flags) : Shorthand → CharSet
  | .digit => CharSet.digits flags.unicode
  | .space => CharSet.space flags.unicode
  | .word => CharSet.word flags.unicode

end Flags

/-- The set that a class stands for. -/
def ClassExpr.members (flags : Flags) : ClassExpr → Except Fault CharSet
  | .empty => .ok .empty
  | .range first last =>
    if !flags.unicode && decide (0x80 ≤ last.toNat) then .error .unicodeNotAllowed
    else .ok (.range first last)
  | .shorthand kind negated => flags.complemented negated (flags.shorthand kind)
  | .named members negated => flags.complemented negated (flags.folded members)
  | .property members negated =>
    if flags.unicode then flags.complemented negated (flags.folded members)
    else .error .unicodeNotAllowed
  | .union a b => do return .union (← a.members flags) (← b.members flags)
  | .operation operator a b => do
    let left := flags.folded (← a.members flags)
    let right := flags.folded (← b.members flags)
    return match operator with
      | .inter => .inter left right
      | .diff => .diff left right
      | .symmDiff => .symmDiff left right
  | .bracket negated inner => do
    flags.complemented negated (flags.folded (← inner.members flags))

end TrustSchema.Regex
