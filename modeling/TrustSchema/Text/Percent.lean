import TrustSchema.Text.Numeral

/-!
Percent escapes: an octet is written as itself if it is a letter or digit of ASCII or one of
`+ - . _`, and as `%` with two capital hexadecimal digits otherwise. Reading also takes small
digits, and any other character stands for its UTF-8 octets.
-/

namespace TrustSchema.Text.Percent

/-- Whether an octet is written as the character it is. -/
def plain (b : UInt8) : Bool :=
  let c := Char.ofNat b.toNat
  c.isAlphanum || c == '+' || c == '-' || c == '.' || c == '_'

/-- The escaped form of one octet. -/
def encodeByte (b : UInt8) : Text :=
  if plain b then [Char.ofNat b.toNat]
  else ['%', capitalHexDigit (b.toNat / 16), capitalHexDigit (b.toNat % 16)]

/-- The escaped form of a string of octets. -/
def encode (bytes : Bytes) : Text :=
  bytes.flatMap encodeByte

/-- The octets that an escaped text stands for. A `%` without two hexadecimal digits after it has
no meaning. -/
def decode? : Text → Option Bytes
  | [] => some []
  | '%' :: high :: low :: rest => do
    let h ← hexDigit? high
    let l ← hexDigit? low
    let bytes ← decode? rest
    return UInt8.ofNat (16 * h + l) :: bytes
  | c :: rest =>
    if c = '%' then none
    else (decode? rest).map (String.utf8EncodeChar c ++ ·)

end TrustSchema.Text.Percent
