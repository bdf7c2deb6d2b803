import TrustSchema.Toml.Error

/-!
What surrounds keys and values in a TOML document: blanks, comments and line ends.
-/

namespace TrustSchema.Toml

/-- White space within a line. -/
def isSpace (c : Char) : Bool :=
  c == ' ' || c == '\t'

/-- Whether a character may stand in a comment or, but for quotes and backslashes, in a string:
the horizontal tab and all but the control characters. -/
def isPlain (c : Char) : Bool :=
  c == '\t' || (decide (0x20 ≤ c.toNat) && c.toNat != 0x7F)

/-- The text without the white space at its beginning. -/
def skipSpace (text : Text) : Text :=
  text.dropWhile isSpace

/-- The text after a line end, if it begins with one. -/
def newline? : Text → Option Text
  | '\n' :: rest => some rest
  | '\r' :: '\n' :: rest => some rest
  | _ => none

/-- The text without a comment at its beginning. -/
def skipComment (text : Text) : Text :=
  match text with
  | '#' :: rest => rest.dropWhile isPlain
  | _ => text

/-- The text after the end of the line, which only white space and a comment may precede. -/
def lineEnd (text : Text) : Except Fault Text :=
  match skipComment (skipSpace text) with
  | [] => .ok []
  | rest =>
    match newline? rest with
    | some after => .ok after
    | none => .error .trailingText

theorem skipSpace_length (text : Text) : (skipSpace text).length ≤ text.length :=
  (List.dropWhile_sublist _).length_le

theorem newline?_length {text after : Text} (read : newline? text = some after) :
    after.length < text.length := by
  unfold newline? at read
  split at read
  all_goals simp only [Option.some.injEq, reduceCtorEq] at read
  all_goals
    simp only [List.length_cons, ← read]
    omega

/-- The text without white space and line ends at its beginning. -/
def skipLines (text : Text) : Text :=
  match text with
  | [] => []
  | c :: rest =>
    if isSpace c then skipLines rest
    else
      match _ended : newline? (c :: rest) with
      | some after => skipLines after
      | none => c :: rest
termination_by text.length
decreasing_by
  · exact Nat.lt_succ_self _
  · exact newline?_length _ended

theorem skipLines_length (text : Text) : (skipLines text).length ≤ text.length := by
  fun_induction skipLines text with
  | case1 | case4 => exact Nat.le_refl _
  | case2 c rest _ ih => exact Nat.le_succ_of_le ih
  | case3 c rest _ after ended ih =>
    exact Nat.le_trans ih (Nat.le_of_lt (newline?_length ended))

/-- The text without white space, comments and line ends at its beginning. -/
def skipFiller (text : Text) : Text :=
  match text with
  | [] => []
  | c :: rest =>
    if isSpace c then skipFiller rest
    else if c = '#' then skipFiller (rest.dropWhile isPlain)
    else
      match _ended : newline? (c :: rest) with
      | some after => skipFiller after
      | none => c :: rest
termination_by text.length
decreasing_by
  · exact Nat.lt_succ_self _
  · exact Nat.lt_succ_of_le (List.dropWhile_sublist _).length_le
  · exact newline?_length _ended

end TrustSchema.Toml
