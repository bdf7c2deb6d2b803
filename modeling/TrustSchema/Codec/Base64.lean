import TrustSchema.Text.Utf8

/-!
Base64 with the standard alphabet and padding. Reading is strict: the text is cut into groups of
four, only the last group may be short or padded, its padding must fill it up, and the bits that
its last symbol leaves over must be zero. Faults carry the symbol and its place.
-/

namespace TrustSchema.Codec.Base64

/-- The symbol of a value below 64. -/
def symbol (value : Nat) : Char :=
  if value < 26 then Char.ofNat ('A'.toNat + value)
  else if value < 52 then Char.ofNat ('a'.toNat + value - 26)
  else if value < 62 then Char.ofNat ('0'.toNat + value - 52)
  else if value = 62 then '+'
  else '/'

/-- The value of a symbol, given as an octet. -/
def value? (b : UInt8) : Option Nat :=
  let n := b.toNat
  if 65 ≤ n ∧ n ≤ 90 then some (n - 65)
  else if 97 ≤ n ∧ n ≤ 122 then some (n - 97 + 26)
  else if 48 ≤ n ∧ n ≤ 57 then some (n - 48 + 52)
  else if n = 43 then some 62
  else if n = 47 then some 63
  else none

/-- The octet of the padding sign `=`. -/
def padding : UInt8 := 61

/-- The padded base64 text of a string of octets. -/
def encode : Bytes → Text
  | [] => []
  | [a] => [symbol (a.toNat / 4), symbol (a.toNat % 4 * 16), '=', '=']
  | [a, b] =>
    [symbol (a.toNat / 4), symbol (a.toNat % 4 * 16 + b.toNat / 16), symbol (b.toNat % 16 * 4), '=']
  | a :: b :: c :: rest =>
    symbol (a.toNat / 4) :: symbol (a.toNat % 4 * 16 + b.toNat / 16) ::
      symbol (b.toNat % 16 * 4 + c.toNat / 64) :: symbol (c.toNat % 64) :: encode rest

/-- Why a text is not base64. -/
inductive Fault where
  /-- An octet that is no symbol, or a padding sign out of place. -/
  | invalidByte (offset : Nat) (byte : UInt8)
  /-- A single symbol is left over. -/
  | invalidLength (length : Nat)
  /-- The last symbol has bits that no octet takes. -/
  | invalidLastSymbol (offset : Nat) (byte : UInt8)
  /-- The padding does not fill the last group up. -/
  | invalidPadding
  deriving DecidableEq, Repr

/-- The report of a base64 fault. -/
def Fault.message : Fault → String
  | .invalidByte offset byte =>
    "Invalid symbol " ++ toString byte.toNat ++ ", offset " ++ toString offset ++ "."
  | .invalidLength length => "Invalid input length: " ++ toString length
  | .invalidLastSymbol offset byte =>
    "Invalid last symbol " ++ toString byte.toNat ++ ", offset " ++ toString offset ++ "."
  | .invalidPadding => "Invalid padding"

/-- The symbols of the last group, which begins at `start`, and the number of its padding signs.
The arguments after the start are the place in the group, the place of its first padding sign, and
the number of padding signs so far. -/
def lastGroup (start place firstPadding count : Nat) :
    Bytes → Except Fault (List (UInt8 × Nat) × Nat)
  | [] => .ok ([], count)
  | b :: rest =>
    if b = padding then
      if place < 2 then .error (.invalidByte (start + place) b)
      else lastGroup start (place + 1) (if count = 0 then place else firstPadding) (count + 1) rest
    else if 0 < count then .error (.invalidByte (start + firstPadding) padding)
    else
      match value? b with
      | none => .error (.invalidByte (start + place) b)
      | some v =>
        (lastGroup start (place + 1) firstPadding count rest).map
          fun (symbols, count) => ((b, v) :: symbols, count)

/-- The octets of the last group, which begins at `start`. -/
def decodeLast (start : Nat) (group : Bytes) : Except Fault Bytes := do
  let (symbols, paddings) ← lastGroup start 0 0 0 group
  match symbols with
  | [] => if group.isEmpty then return [] else throw (.invalidLength start)
  | [_] => throw (.invalidLength (start + 1))
  | [(_, a), (last, b)] =>
    if paddings ≠ 2 then throw .invalidPadding
    if b % 16 ≠ 0 then throw (.invalidLastSymbol (start + 1) last)
    return [UInt8.ofNat (a * 4 + b / 16)]
  | [(_, a), (_, b), (last, c)] =>
    if paddings ≠ 1 then throw .invalidPadding
    if c % 4 ≠ 0 then throw (.invalidLastSymbol (start + 2) last)
    return [UInt8.ofNat (a * 4 + b / 16), UInt8.ofNat (b % 16 * 16 + c / 4)]
  | (_, a) :: (_, b) :: (_, c) :: (_, d) :: _ =>
    return [UInt8.ofNat (a * 4 + b / 16), UInt8.ofNat (b % 16 * 16 + c / 4),
      UInt8.ofNat (c % 4 * 64 + d)]

/-- The octets of a text whose first symbol has the place `start`. -/
def decodeGroups (start : Nat) : Bytes → Except Fault Bytes
  | a :: b :: c :: d :: e :: rest => do
    let va ← valueAt start a
    let vb ← valueAt (start + 1) b
    let vc ← valueAt (start + 2) c
    let vd ← valueAt (start + 3) d
    let after ← decodeGroups (start + 4) (e :: rest)
    return UInt8.ofNat (va * 4 + vb / 16) :: UInt8.ofNat (vb % 16 * 16 + vc / 4) ::
      UInt8.ofNat (vc % 4 * 64 + vd) :: after
  | group => decodeLast start group
where
  valueAt (offset : Nat) (b : UInt8) : Except Fault Nat :=
    match value? b with
    | none => .error (.invalidByte offset b)
    | some v => .ok v

/-- The octets that a base64 text stands for. An octet that begins a group of its own at the end of
the text and is neither a symbol nor padding is reported before all other faults. -/
def decode (text : Bytes) : Except Fault Bytes :=
  match text.getLast? with
  | some last =>
    if text.length % 4 = 1 ∧ last ≠ padding ∧ (value? last).isNone then
      .error (.invalidByte (text.length - 1) last)
    else decodeGroups 0 text
  | none => .ok []

end TrustSchema.Codec.Base64
