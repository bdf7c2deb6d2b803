import TrustSchema.Info.Error
import TrustSchema.Text.Blank

/-!
The tokens of a configuration text: words, braces and line ends, each with its line. A word is bare
or quoted; a quoted word may hold anything but a line end and knows four escapes. A comment goes
from `;` to the end of the line, and other white space only separates.
-/

namespace TrustSchema.Info

/-- A token of a configuration text. -/
inductive Token where
  | word (text : Text)
  | blockOpen
  | blockClose
  | lineEnd
  deriving DecidableEq, Repr

/-- A token and the line on which it begins. -/
structure Located where
  token : Token
  line : Nat
  deriving DecidableEq, Repr

/-- Whether a character may stand in a bare word. -/
def isBare (c : Char) : Bool :=
  !(Text.isBlank c || c == '{' || c == '}' || c == ';' || c == '"')

/-- What a character stands for after a backslash. -/
def unescape? : Char → Option Char
  | 'n' => some '\n'
  | 't' => some '\t'
  | '"' => some '"'
  | '\\' => some '\\'
  | _ => none

/-- A quoted word, from after its opening quote, and the text after its closing quote. -/
def quoted : Text → Except Fault (Text × Text)
  | [] => .error .unterminatedString
  | '\n' :: _ => .error .unterminatedString
  | '"' :: rest => .ok ([], rest)
  | '\\' :: [] => .error .unterminatedString
  | '\\' :: c :: rest =>
    match unescape? c with
    | none => .error (.unknownEscape c)
    | some plain => (quoted rest).map fun (word, after) => (plain :: word, after)
  | c :: rest => (quoted rest).map fun (word, after) => (c :: word, after)

theorem quoted_length {text word after : Text} (read : quoted text = .ok (word, after)) :
    after.length < text.length := by
  fun_induction quoted text generalizing word with
  | case1 | case2 | case4 | case5 => simp at read
  | case3 rest =>
    simp only [Except.ok.injEq, Prod.mk.injEq] at read
    simp [← read.2]
  | case6 c rest plain known ih =>
    obtain ⟨⟨w, later⟩, inner, same⟩ := Text.ok_of_map read
    obtain ⟨-, rfl⟩ := Prod.mk.injEq .. ▸ same
    have := ih inner
    simp only [List.length_cons]
    omega
  | case7 c rest =>
    obtain ⟨⟨w, later⟩, inner, same⟩ := Text.ok_of_map read
    obtain ⟨-, rfl⟩ := Prod.mk.injEq .. ▸ same
    rename_i ih
    have := ih inner
    simp only [List.length_cons]
    omega

/-- The tokens of a text whose first line has the number `line`. -/
def tokenize (line : Nat) (text : Text) : Except SyntaxError (List Located) :=
  match text with
  | [] => .ok []
  | '\n' :: rest => (tokenize (line + 1) rest).map (⟨.lineEnd, line⟩ :: ·)
  | ';' :: rest => tokenize line (rest.dropWhile (· ≠ '\n'))
  | '{' :: rest => (tokenize line rest).map (⟨.blockOpen, line⟩ :: ·)
  | '}' :: rest => (tokenize line rest).map (⟨.blockClose, line⟩ :: ·)
  | '"' :: rest =>
    match _read : quoted rest with
    | .error fault => .error ⟨line, fault⟩
    | .ok (word, after) => (tokenize line after).map (⟨.word word, line⟩ :: ·)
  | c :: rest =>
    if Text.isBlank c then tokenize line rest
    else
      (tokenize line (rest.dropWhile isBare)).map
        (⟨.word (c :: rest.takeWhile isBare), line⟩ :: ·)
termination_by text.length
decreasing_by
  all_goals simp only [List.length_cons]
  · omega
  · exact Nat.lt_succ_of_le (List.dropWhile_sublist _).length_le
  · omega
  · omega
  · exact Nat.lt_succ_of_lt (quoted_length _read)
  · omega
  · exact Nat.lt_succ_of_le (List.dropWhile_sublist _).length_le

/-- The tokens of a configuration text. -/
def tokens (text : Text) : Except SyntaxError (List Located) :=
  tokenize 1 text

end TrustSchema.Info
