import TrustSchema.Text.Utf8

/-!
Numerals: decimal and hexadecimal digits, the decimal text of a number, and the hexadecimal text of
a string of octets.
-/

namespace TrustSchema.Text

/-- The value of a decimal digit of ASCII. -/
def decimalDigit? (c : Char) : Option Nat :=
  if '0' ≤ c ∧ c ≤ '9' then some (c.toNat - '0'.toNat) else none

/-- The value of a hexadecimal digit, in either case. -/
def hexDigit? (c : Char) : Option Nat :=
  if '0' ≤ c ∧ c ≤ '9' then some (c.toNat - '0'.toNat)
  else if 'a' ≤ c ∧ c ≤ 'f' then some (c.toNat - 'a'.toNat + 10)
  else if 'A' ≤ c ∧ c ≤ 'F' then some (c.toNat - 'A'.toNat + 10)
  else none

theorem hexDigit?_lt {c : Char} {d : Nat} (digit : hexDigit? c = some d) : d < 16 := by
  simp only [hexDigit?, Char.le_def, UInt32.le_iff_toNat_le, Char.toNat] at digit
  split at digit
  · simp only [Option.some.injEq] at digit
    simp_all
    omega
  · split at digit
    · simp only [Option.some.injEq] at digit
      simp_all
      omega
    · split at digit
      · simp only [Option.some.injEq] at digit
        simp_all
        omega
      · simp at digit

/-- The number that a list of digit values writes in base `base`. -/
def ofDigits (base : Nat) (digits : List Nat) : Nat :=
  digits.foldl (fun value digit => value * base + digit) 0

/-- The number that a text writes, if it consists of one or more digits of base `base`. -/
def number? (digit? : Char → Option Nat) (base : Nat) (text : Text) : Option Nat :=
  if text.isEmpty then none else (text.mapM digit?).map (ofDigits base)

/-- The number that a text of decimal digits writes. -/
def decimal? (text : Text) : Option Nat :=
  number? decimalDigit? 10 text

/-- The character whose number a text writes in hexadecimal, if there is one. -/
def characterOfHex? (digits : Text) : Option Char :=
  (number? hexDigit? 16 digits).bind fun value =>
    if h : value.isValidChar then some (Char.ofNatAux value h) else none

/-- The capital hexadecimal digit of a value below 16. -/
def capitalHexDigit (value : Nat) : Char :=
  if value < 10 then Char.ofNat ('0'.toNat + value) else Char.ofNat ('A'.toNat + value - 10)

/-- The small hexadecimal digit of a value below 16. -/
def smallHexDigit (value : Nat) : Char :=
  if value < 10 then Char.ofNat ('0'.toNat + value) else Char.ofNat ('a'.toNat + value - 10)

theorem hexDigit?_smallHexDigit {value : Nat} (small : value < 16) :
    hexDigit? (smallHexDigit value) = some value := by
  have all : ∀ v : Fin 16, hexDigit? (smallHexDigit v) = some v.val := by decide
  exact all ⟨value, small⟩

/-- An octet as two small hexadecimal digits. -/
def hexOfByte (b : UInt8) : Text :=
  [smallHexDigit (b.toNat / 16), smallHexDigit (b.toNat % 16)]

/-- A string of octets in hexadecimal, without separators. -/
def hexOfBytes (bytes : Bytes) : Text :=
  bytes.flatMap hexOfByte

/-- The octets that a text writes in hexadecimal. -/
def bytesOfHex? : Text → Option Bytes
  | [] => some []
  | [_] => none
  | high :: low :: rest => do
    let h ← hexDigit? high
    let l ← hexDigit? low
    let bytes ← bytesOfHex? rest
    return UInt8.ofNat (16 * h + l) :: bytes

theorem bytesOfHex?_hexOfBytes (bytes : Bytes) : bytesOfHex? (hexOfBytes bytes) = some bytes := by
  induction bytes with
  | nil => rfl
  | cons b bytes ih =>
    have below : b.toNat < 256 := b.toNat_lt
    have high := hexDigit?_smallHexDigit (show b.toNat / 16 < 16 by omega)
    have low := hexDigit?_smallHexDigit (show b.toNat % 16 < 16 by omega)
    change bytesOfHex? (smallHexDigit (b.toNat / 16) :: smallHexDigit (b.toNat % 16) ::
      hexOfBytes bytes) = _
    rw [bytesOfHex?, high, low, ih]
    simp only [Option.bind_eq_bind, Option.bind_some, Nat.div_add_mod, UInt8.ofNat_toNat]
    rfl

/-- The decimal text of a number, without leading zeros. -/
def ofNat (n : Nat) : Text :=
  Nat.toDigits 10 n

theorem ofNat_injective : Function.Injective ofNat := by
  intro m n same
  have value := congrArg (Nat.ofDigitChars 10 · 0) same
  simpa only [ofNat, Nat.ofDigitChars_ten_toDigits] using value

end TrustSchema.Text
