import TrustSchema.Regex.Basic
import TrustSchema.Regex.Blank
import TrustSchema.Regex.Class
import TrustSchema.Regex.Property
import TrustSchema.Text.Numeral

/-!
Escapes in regular expressions: what a backslash and the characters after it stand for. A reader
gets the text from after the backslash and gives the text after the escape, which is shorter. Under
the flag `x`, blanks may stand between the characters of an escape that is written with several.
-/

namespace TrustSchema.Regex

/-- What an escape stands for. -/
inductive Escaped where
  /-- A character. One that is written as an octet means that octet outside Unicode mode. -/
  | literal (c : Char) (asOctet : Bool)
  | charClass (members : ClassExpr)
  | condition (look : Look)
  deriving DecidableEq

/-- Whether a character has a meaning of its own in expressions or classes. -/
def isMeta (c : Char) : Bool :=
  "\\.+*?()|[]\x7b\x7d^$#&-~".toList.contains c

/-- Whether a backslash before a character gives that character. Letters, digits and the angle
brackets are kept for other uses. -/
def isEscapable (c : Char) : Bool :=
  isMeta c || (decide (c.toNat < 128) && !(c.isAlphanum || c == '<' || c == '>'))

/-- The escapes that consist of a single character. -/
def singleEscape? (c : Char) : Option Escaped :=
  if isEscapable c then some (.literal c false)
  else
    match c with
    | 'd' => some (.charClass (.shorthand .digit false))
    | 'D' => some (.charClass (.shorthand .digit true))
    | 's' => some (.charClass (.shorthand .space false))
    | 'S' => some (.charClass (.shorthand .space true))
    | 'w' => some (.charClass (.shorthand .word false))
    | 'W' => some (.charClass (.shorthand .word true))
    | 'a' => some (.literal '\x07' false)
    | 'f' => some (.literal '\x0C' false)
    | 't' => some (.literal '\t' false)
    | 'n' => some (.literal '\n' false)
    | 'r' => some (.literal '\r' false)
    | 'v' => some (.literal '\x0B' false)
    | 'A' => some (.condition .textStart)
    | 'z' => some (.condition .textEnd)
    | 'B' => some (.condition .noWordBoundary)
    | '<' => some (.condition .wordStart)
    | '>' => some (.condition .wordEnd)
    | _ => none

/-- A character by hexadecimal digits: `digits` of them, or any number between braces. -/
def hexEscape (ignoreSpace : Bool) (digits : Nat) (text : Text) : Except Fault (Escaped × Text) :=
  match skipBlanks ignoreSpace text with
  | '{' :: rest =>
    match cutSpaced ignoreSpace '}' rest with
    | some (inside, after) =>
      match Text.characterOfHex? inside with
      | some c => .ok (.literal c false, after)
      | none => .error .invalidHex
    | none => .error .unfinishedEscape
  | rest =>
    match takeSpaced ignoreSpace digits rest with
    | some (inside, after) =>
      match Text.characterOfHex? inside with
      | some c => .ok (.literal c (digits == 2), after)
      | none => .error .invalidHex
    | none => .error .unfinishedEscape

theorem hexEscape_length {ignoreSpace : Bool} {digits : Nat} {text after : Text} {e : Escaped}
    (read : hexEscape ignoreSpace digits text = .ok (e, after)) : after.length ≤ text.length := by
  have blanks := skipBlanks_length ignoreSpace text
  unfold hexEscape at read
  split at read
  next skipped =>
    rw [skipped, List.length_cons] at blanks
    split at read
    next cut =>
      have shorter := cutSpaced_length cut
      split at read
      · cases read
        omega
      · cases read
    next => cases read
  next =>
    split at read
    next taken =>
      have shorter := takeSpaced_length taken
      split at read
      · cases read
        omega
      · cases read
    next => cases read

section

variable [PropertyTable]

/-- A Unicode property, or all characters without it. -/
def propertyClass (negated : Bool) (query : PropertyQuery) : Except Fault Escaped :=
  match PropertyTable.members? query with
  | some members => .ok (.charClass (.property members negated))
  | none => .error .unknownProperty

/-- A Unicode property: one letter, or a query between braces. -/
def propertyEscape (ignoreSpace negated : Bool) (text : Text) : Except Fault (Escaped × Text) :=
  match skipBlanks ignoreSpace text with
  | [] => .error .unfinishedEscape
  | '{' :: rest =>
    match cutSpaced ignoreSpace '}' rest with
    | some (inside, after) =>
      let query := propertyQuery inside
      (propertyClass (negated ^^ query.2) query.1).map (·, after)
    | none => .error .unfinishedEscape
  | c :: rest => (propertyClass negated (.named [c])).map (·, rest)

theorem propertyEscape_length {ignoreSpace negated : Bool} {text after : Text} {e : Escaped}
    (read : propertyEscape ignoreSpace negated text = .ok (e, after)) :
    after.length ≤ text.length := by
  have blanks := skipBlanks_length ignoreSpace text
  unfold propertyEscape at read
  split at read
  next => cases read
  next skipped =>
    rw [skipped, List.length_cons] at blanks
    split at read
    next cut =>
      have shorter := cutSpaced_length cut
      obtain ⟨e, -, same⟩ := Text.ok_of_map read
      cases same
      omega
    next => cases read
  next skipped =>
    rw [skipped, List.length_cons] at blanks
    obtain ⟨e, -, same⟩ := Text.ok_of_map read
    cases same
    omega

end

/-- The kinds of word boundary that are named between braces. -/
def namedBoundary? (name : Text) : Option Look :=
  (table.find? fun entry => entry.1.toList = name).map Prod.snd
where
  table : List (String × Look) :=
    [("start", .wordStart), ("end", .wordEnd), ("start-half", .wordStartHalf),
     ("end-half", .wordEndHalf)]

/-- Whether a character may stand in the name of a word boundary. -/
def isBoundaryName (c : Char) : Bool :=
  c.isAlpha || c == '-'

/-- A word boundary, from after its letter. Braces that begin with something else than the name of
a kind of boundary belong to a counted repetition. -/
def boundaryEscape (ignoreSpace : Bool) (text : Text) : Except Fault (Escaped × Text) :=
  match text with
  | '{' :: rest =>
    if (skipBlanks ignoreSpace rest).head?.any isBoundaryName then
      match cutSpaced ignoreSpace '}' rest with
      | some (name, after) =>
        match namedBoundary? name with
        | some kind => .ok (.condition kind, after)
        | none => .error .unknownBoundary
      | none => .error .unknownBoundary
    else if (skipBlanks ignoreSpace rest).isEmpty then .error .unclosedCount
    else .ok (.condition .wordBoundary, text)
  | _ => .ok (.condition .wordBoundary, text)

theorem boundaryEscape_length {ignoreSpace : Bool} {text after : Text} {e : Escaped}
    (read : boundaryEscape ignoreSpace text = .ok (e, after)) : after.length ≤ text.length := by
  unfold boundaryEscape at read
  split at read
  · split at read
    · split at read
      next cut =>
        have shorter := cutSpaced_length cut
        split at read
        · cases read
          simp only [List.length_cons]
          omega
        · cases read
      next => cases read
    · split at read
      · cases read
      · cases read
        exact Nat.le_refl _
  · cases read
    exact Nat.le_refl _

variable [PropertyTable]

/-- An escape, from after its backslash. -/
def escape (ignoreSpace : Bool) (text : Text) : Except Fault (Escaped × Text) :=
  match text with
  | [] => .error .unfinishedEscape
  | c :: rest =>
    match singleEscape? c with
    | some e => .ok (e, rest)
    | none =>
      match c with
      | 'x' => hexEscape ignoreSpace 2 rest
      | 'u' => hexEscape ignoreSpace 4 rest
      | 'U' => hexEscape ignoreSpace 8 rest
      | 'p' => propertyEscape ignoreSpace false rest
      | 'P' => propertyEscape ignoreSpace true rest
      | 'b' => boundaryEscape ignoreSpace rest
      | _ => if c.isDigit then .error .backreference else .error (.unknownEscape c)

theorem escape_length {ignoreSpace : Bool} {text after : Text} {e : Escaped}
    (read : escape ignoreSpace text = .ok (e, after)) : after.length < text.length := by
  unfold escape at read
  split at read
  · cases read
  · simp only [List.length_cons]
    split at read
    · cases read
      exact Nat.lt_succ_self _
    · split at read
      · exact Nat.lt_succ_of_le (hexEscape_length read)
      · exact Nat.lt_succ_of_le (hexEscape_length read)
      · exact Nat.lt_succ_of_le (hexEscape_length read)
      · exact Nat.lt_succ_of_le (propertyEscape_length read)
      · exact Nat.lt_succ_of_le (propertyEscape_length read)
      · exact Nat.lt_succ_of_le (boundaryEscape_length read)
      · split at read <;> cases read

end TrustSchema.Regex
