import TrustSchema.Text.Basic

/-!
The UTF-8 form of a text and its size. Offsets that are reported to a reader count the bytes of
this form.
-/

namespace TrustSchema

/-- A string of octets. -/
abbrev Bytes := List UInt8

namespace Text

/-- The UTF-8 octets of a text. -/
def toUtf8 (text : Text) : Bytes :=
  text.flatMap String.utf8EncodeChar

theorem toUtf8_append (a b : Text) : toUtf8 (a ++ b) = toUtf8 a ++ toUtf8 b :=
  List.flatMap_append

/-- How many octets the UTF-8 form has. -/
def utf8Size (text : Text) : Nat :=
  text.foldr (fun c size => c.utf8Size + size) 0

@[simp] theorem utf8Size_nil : utf8Size [] = 0 := rfl

@[simp] theorem utf8Size_cons (c : Char) (rest : Text) :
    utf8Size (c :: rest) = c.utf8Size + utf8Size rest := rfl

theorem utf8Size_append (a b : Text) : utf8Size (a ++ b) = utf8Size a + utf8Size b := by
  induction a with
  | nil => simp
  | cons c rest ih => simp [ih, Nat.add_assoc]

theorem utf8Size_append_sub (before after : Text) :
    utf8Size (before ++ after) - utf8Size after = utf8Size before := by
  rw [utf8Size_append, Nat.add_sub_cancel]

theorem length_toUtf8 (text : Text) : (toUtf8 text).length = utf8Size text := by
  induction text with
  | nil => simp [toUtf8]
  | cons c rest ih => simpa [toUtf8] using ih

/-- The text whose UTF-8 form is `bytes`, if there is one. -/
def ofUtf8? (bytes : Bytes) : Option Text :=
  (String.fromUTF8? ⟨bytes.toArray⟩).map String.toList

end Text

end TrustSchema
