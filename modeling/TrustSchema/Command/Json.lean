import TrustSchema.Text.Numeral

/-!
JSON text for reports: one member or item a line, indented by two blanks a level.
-/

namespace TrustSchema.Command

/-- A JSON value as reports hold them. -/
inductive Json where
  | string (text : Text)
  | number (n : Nat)
  | boolean (b : Bool)
  | array (items : List Json)
  | object (members : List (Text × Json))

namespace Json

/-- A character of a string. Control characters have an escape of one letter or of four digits. -/
def escaped (c : Char) : Text :=
  match c with
  | '"' => ['\\', '"']
  | '\\' => ['\\', '\\']
  | '\x08' => ['\\', 'b']
  | '\t' => ['\\', 't']
  | '\n' => ['\\', 'n']
  | '\x0C' => ['\\', 'f']
  | '\r' => ['\\', 'r']
  | _ => if c.toNat < 0x20 then "\\u00".toList ++ Text.hexOfByte (UInt8.ofNat c.toNat) else [c]

/-- A string between quotes. -/
def quoted (text : Text) : Text :=
  '"' :: text.flatMap escaped ++ ['"']

/-- The beginning of a line at a level of nesting. -/
def newLine (level : Nat) : Text :=
  '\n' :: List.replicate (2 * level) ' '

/-- What stands in an array or object, at a level of nesting, between its brackets. Nothing is put
into one that is empty. -/
def enclosed (opening closing : Char) (level : Nat) (items : List Text) : Text :=
  if items.isEmpty then [opening, closing]
  else
    opening :: List.intercalate [','] (items.map (newLine (level + 1) ++ ·)) ++
      newLine level ++ [closing]

mutual

/-- The text of a value at a level of nesting. -/
def pretty (level : Nat) : Json → Text
  | string text => quoted text
  | number n => Text.ofNat n
  | boolean b => if b then "true".toList else "false".toList
  | array items => enclosed '[' ']' level (prettyItems (level + 1) items)
  | object members => enclosed '\x7b' '\x7d' level (prettyMembers (level + 1) members)

/-- The texts of the items of an array. -/
def prettyItems (level : Nat) : List Json → List Text
  | [] => []
  | item :: rest => item.pretty level :: prettyItems level rest

/-- The texts of the members of an object. -/
def prettyMembers (level : Nat) : List (Text × Json) → List Text
  | [] => []
  | (key, value) :: rest =>
    (quoted key ++ [':', ' '] ++ value.pretty level) :: prettyMembers level rest

end

end Json

end TrustSchema.Command
