import TrustSchema.Text.Numeral
import TrustSchema.Toml.Lexical

/-!
Quoted strings: between double quotes with escapes, or between single quotes without, on one line
or, with the quote three times, on several. A reader gets the text from after the opening quotes and
gives the string and the text after the closing ones.
-/

namespace TrustSchema.Toml

/-- The characters that a single letter escapes. -/
def letterEscape? : Char → Option Char
  | 'b' => some '\x08'
  | 't' => some '\t'
  | 'n' => some '\n'
  | 'f' => some '\x0C'
  | 'r' => some '\r'
  | '"' => some '"'
  | '\\' => some '\\'
  | _ => none

/-- A character by a given number of hexadecimal digits. -/
def hexEscape (digits : Nat) (text : Text) : Except Fault (Char × Text) :=
  if text.length < digits then .error .badEscape
  else
    match Text.characterOfHex? (text.take digits) with
    | some c => .ok (c, text.drop digits)
    | none => .error .badEscape

/-- An escape, from after its backslash. -/
def escape (text : Text) : Except Fault (Char × Text) :=
  match text with
  | [] => .error .badEscape
  | c :: rest =>
    if c = 'u' then hexEscape 4 rest
    else if c = 'U' then hexEscape 8 rest
    else
      match letterEscape? c with
      | some plain => .ok (plain, rest)
      | none => .error .badEscape

theorem hexEscape_length {digits : Nat} {text after : Text} {c : Char}
    (read : hexEscape digits text = .ok (c, after)) : after.length ≤ text.length := by
  unfold hexEscape at read
  split at read
  · simp at read
  · split at read
    · simp only [Except.ok.injEq, Prod.mk.injEq] at read
      simp [← read.2]
    · simp at read

theorem escape_length {text after : Text} {c : Char} (read : escape text = .ok (c, after)) :
    after.length < text.length := by
  unfold escape at read
  split at read
  · simp at read
  · split at read
    · exact Nat.lt_succ_of_le (hexEscape_length read)
    · split at read
      · exact Nat.lt_succ_of_le (hexEscape_length read)
      · split at read
        · simp only [Except.ok.injEq, Prod.mk.injEq] at read
          simp [← read.2]
        · simp at read

/-- A string on one line. -/
def quotedLine (quote : Char) (escapes : Bool) (text : Text) : Except Fault (Text × Text) :=
  match text with
  | [] => .error .unclosedString
  | c :: rest =>
    if c = quote then .ok ([], rest)
    else if escapes && c == '\\' then
      match _escaped : escape rest with
      | .error fault => .error fault
      | .ok (plain, after) =>
        (quotedLine quote escapes after).map fun (word, last) => (plain :: word, last)
    else if isPlain c then
      (quotedLine quote escapes rest).map fun (word, last) => (c :: word, last)
    else .error .unclosedString
termination_by text.length
decreasing_by
  · exact Nat.lt_succ_of_lt (escape_length _escaped)
  · exact Nat.lt_succ_self _

/-- The text after a line end that a backslash hides, and after all white space and line ends that
follow it. -/
def hiddenNewline? (text : Text) : Option Text :=
  (newline? (skipSpace text)).map skipLines

theorem hiddenNewline?_length {text after : Text} (read : hiddenNewline? text = some after) :
    after.length < text.length := by
  obtain ⟨line, ended, rfl⟩ := Option.map_eq_some_iff.mp read
  have one := newline?_length ended
  have two := skipSpace_length text
  have three := skipLines_length line
  omega

/-- How many quotes a string may hold directly before its three closing ones. -/
def maxFinalQuotes : Nat := 2

/-- A string on several lines. One or two quotes stand for themselves. -/
def quotedLines (quote : Char) (escapes : Bool) (text : Text) : Except Fault (Text × Text) :=
  match text with
  | [] => .error .unclosedString
  | c :: rest =>
    if c = quote then
      let more := (rest.takeWhile (· == quote)).length
      if more < 2 then
        (quotedLines quote escapes rest).map fun (word, last) => (c :: word, last)
      else
        let final := Nat.min maxFinalQuotes (more - 2)
        .ok (List.replicate final quote, rest.drop (final + 2))
    else if escapes && c == '\\' then
      match _hidden : hiddenNewline? rest with
      | some after => quotedLines quote escapes after
      | none =>
        match _escaped : escape rest with
        | .error fault => .error fault
        | .ok (plain, after) =>
          (quotedLines quote escapes after).map fun (word, last) => (plain :: word, last)
    else
      match _ended : newline? (c :: rest) with
      | some after => (quotedLines quote escapes after).map fun (word, last) => ('\n' :: word, last)
      | none =>
        if isPlain c then
          (quotedLines quote escapes rest).map fun (word, last) => (c :: word, last)
        else .error .unclosedString
termination_by text.length
decreasing_by
  · exact Nat.lt_succ_self _
  · exact Nat.lt_succ_of_lt (hiddenNewline?_length _hidden)
  · exact Nat.lt_succ_of_lt (escape_length _escaped)
  · exact newline?_length _ended
  · exact Nat.lt_succ_self _

/-- Whether the text of a string with a given quote has escapes. -/
def hasEscapes (quote : Char) : Bool :=
  quote == '"'

/-- A string, from after its first quote. A line end directly after three opening quotes does not
belong to it. -/
def quoted (quote : Char) (text : Text) : Except Fault (Text × Text) :=
  match List.isPrefixOf? [quote, quote] text with
  | some body => quotedLines quote (hasEscapes quote) ((newline? body).getD body)
  | none => quotedLine quote (hasEscapes quote) text

end TrustSchema.Toml
