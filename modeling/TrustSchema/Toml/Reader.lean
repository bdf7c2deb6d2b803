import TrustSchema.Toml.Document
import TrustSchema.Toml.Quoted
import TrustSchema.Toml.Scalar

/-!
Reading TOML documents. Values nest: the reader of the items of an array or of an inline table is
given the reader of values that may nest one level less, and the lists of items end where the text
does.
-/

namespace TrustSchema.Toml

/-! ## Keys -/

/-- Whether a character may stand in a key without quotes. -/
def isKeyChar (c : Char) : Bool :=
  c.isAlphanum || c == '_' || c == '-'

/-- One part of a key, and the text after it. -/
def keyPart (text : Text) : Except Fault (Text × Text) :=
  match text with
  | [] => .error .badKey
  | c :: rest =>
    if c = '"' ∨ c = '\'' then quotedLine c (hasEscapes c) rest
    else if isKeyChar c then .ok (c :: rest.takeWhile isKeyChar, rest.dropWhile isKeyChar)
    else .error .badKey

/-- The parts of a key, at most `limit` of them, between periods and with white space around them,
and the text after them. -/
def keyParts (limit : Nat) (text : Text) : Except Fault (List Text × Text) :=
  match limit with
  | 0 => .error .tooDeep
  | limit + 1 => do
    let (part, rest) ← keyPart (skipSpace text)
    match skipSpace rest with
    | '.' :: rest =>
      let (parts, rest) ← keyParts limit rest
      return (part :: parts, rest)
    | rest => return ([part], rest)

/-- A key, and the text after it. -/
def key (text : Text) : Except Fault (List Text × Text) :=
  keyParts maxDepth text

/-! ## Values -/

/-- How a value is read. -/
abbrev ValueReader := Text → Except Fault (Value × Text)

/-- The items of an array, fewer than `fuel`, from after its bracket or a comma, and the text after
its closing bracket. A comma may follow the last item. -/
def arrayItems (item : ValueReader) (fuel : Nat) (text : Text) :
    Except Fault (List Value × Text) :=
  match fuel, skipFiller text with
  | 0, _ => .error .unclosedArray
  | _, ']' :: rest => .ok ([], rest)
  | fuel + 1, text => do
    let (value, rest) ← item text
    match skipFiller rest with
    | ',' :: rest =>
      let (values, rest) ← arrayItems item fuel rest
      return (value :: values, rest)
    | ']' :: rest => return ([value], rest)
    | _ => throw .unclosedArray

/-- A key, an equals sign and a value. -/
def assignment (item : ValueReader) (text : Text) :
    Except Fault ((List Text × Value) × Text) := do
  let (path, rest) ← key text
  match rest with
  | '=' :: rest =>
    let (value, rest) ← item (skipSpace rest)
    return ((path, value), rest)
  | _ => throw .missingEquals

/-- The assignments of an inline table, at most `fuel` of them, from after its brace or a comma, and
the text after its closing brace. -/
def tableItems (item : ValueReader) (fuel : Nat) (text : Text) :
    Except Fault (List (List Text × Value) × Text) :=
  match fuel with
  | 0 => .error .unclosedTable
  | fuel + 1 => do
    let (field, rest) ← assignment item text
    match skipSpace rest with
    | ',' :: rest =>
      let (fields, rest) ← tableItems item fuel rest
      return (field :: fields, rest)
    | '}' :: rest => return ([field], rest)
    | _ => throw .unclosedTable

/-- An array, from after its bracket. -/
def array (item : ValueReader) : ValueReader := fun text => do
  let (items, rest) ← arrayItems item (text.length + 1) text
  return (.array false items, rest)

/-- An inline table, from after its brace. -/
def inlineTable (item : ValueReader) : ValueReader := fun text => do
  match skipSpace text with
  | '}' :: rest => return (.table .inline [], rest)
  | _ =>
    let (fields, rest) ← tableItems item (text.length + 1) text
    return (← inlineTable? fields, rest)

/-- A value in which arrays and inline tables nest at most `depth` deep. -/
def value (depth : Nat) : ValueReader := fun text =>
  match depth, text with
  | 0, '[' :: _ | 0, '{' :: _ => .error .tooDeep
  | depth + 1, '[' :: rest => array (value depth) rest
  | depth + 1, '{' :: rest => inlineTable (value depth) rest
  | _, '"' :: rest => (quoted '"' rest).map fun (word, rest) => (.string word, rest)
  | _, '\'' :: rest => (quoted '\'' rest).map fun (word, rest) => (.string word, rest)
  | _, text => scalar text

/-! ## Statements -/

/-- A header, from after its brackets, and the text after its closing ones. -/
def header (closing : Text) (text : Text) : Except Fault (List Text × Text) := do
  let (path, rest) ← key text
  match List.isPrefixOf? closing rest with
  | some rest => return (path, rest)
  | none => throw .badHeader

/-- The statement at the beginning of a line, if it says something, and the text after it. -/
def lineStatement (text : Text) : Except Fault (Option Statement × Text) :=
  match text with
  | [] | '#' :: _ | '\n' :: _ | '\r' :: _ => .ok (none, text)
  | '[' :: '[' :: rest =>
    (header [']', ']'] rest).map fun (path, rest) => (some (.element path), rest)
  | '[' :: rest => (header [']'] rest).map fun (path, rest) => (some (.table path), rest)
  | _ =>
    (assignment (value maxDepth) text).map fun ((path, value), rest) =>
      (some (.assign path value), rest)

/-- The statements of a text of at most `fuel` lines. -/
def statements (fuel : Nat) (text : Text) : Except Fault (List Statement) :=
  match fuel, text with
  | _, [] => .ok []
  | 0, _ => .error .trailingText
  | fuel + 1, text => do
    let (found, rest) ← lineStatement (skipSpace text)
    let later ← statements fuel (← lineEnd rest)
    return found.toList ++ later

/-- The mark that may stand at the beginning of a document. -/
def byteOrderMark : Char := Char.ofNat 0xFEFF

/-- The fields of the document that a text writes. -/
def parse? (text : Text) : Except Fault Fields := do
  let body := (List.isPrefixOf? [byteOrderMark] text).getD text
  ofStatements? (← statements (body.length + 1) body)

end TrustSchema.Toml
