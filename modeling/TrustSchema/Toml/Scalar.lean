import TrustSchema.Text.Numeral
import TrustSchema.Toml.Value

/-!
Numbers, truth values and moments in time. Each is written as one word of letters, digits and the
signs `+ - . : _`, except that a blank may stand between a date and a time.
-/

namespace TrustSchema.Toml

/-- Whether a character may stand in a word. -/
def isWordChar (c : Char) : Bool :=
  c.isAlphanum || c == '+' || c == '-' || c == '.' || c == ':' || c == '_'

/-! ## Numbers -/

/-- The digits of a numeral, in which single underscores may stand between digits. -/
def ungrouped? (isDigit : Char → Bool) (text : Text) : Option Text :=
  let groups := List.splitOn '_' text
  if groups.all fun group => !group.isEmpty && group.all isDigit then some groups.flatten else none

/-- The sign of a number, true for a minus, and what follows it. -/
def signed (text : Text) : Bool × Text :=
  match text with
  | '+' :: rest => (false, rest)
  | '-' :: rest => (true, rest)
  | _ => (false, text)

/-- The digits of a decimal numeral without a sign, which has no leading zeros. -/
def decimalDigits? (text : Text) : Option Text :=
  if text.head? = some '0' ∧ text ≠ ['0'] then none else ungrouped? Char.isDigit text

/-- Integers are below this bound. -/
def integerBound : Nat := 1 <<< 63

/-- The digits of the bases that a prefix names, and their number. -/
def basePrefix? : Char → Option (Nat × (Char → Bool))
  | 'x' => some (16, fun c => (Text.hexDigit? c).isSome)
  | 'o' => some (8, fun c => decide ('0' ≤ c) && decide (c ≤ '7'))
  | 'b' => some (2, fun c => c == '0' || c == '1')
  | _ => none

/-- An integer in another base than ten, if a text begins like one. -/
def based? (text : Text) : Option (Except Fault Value) :=
  match text with
  | '0' :: letter :: digits =>
    (basePrefix? letter).map fun (base, isDigit) =>
      match (ungrouped? isDigit digits).bind (Text.number? Text.hexDigit? base) with
      | none => .error .badValue
      | some n => if n < integerBound then .ok (.integer n) else .error .numberRange
  | _ => none

/-- A decimal integer. -/
def decimalInteger (text : Text) : Except Fault Value :=
  let (negative, digits) := signed text
  match (decimalDigits? digits).bind Text.decimal? with
  | none => .error .badValue
  | some n =>
    if negative then
      if n ≤ integerBound then .ok (.integer (-n)) else .error .numberRange
    else if n < integerBound then .ok (.integer n)
    else .error .numberRange

/-- A number with a fraction or an exponent: whether it is negative, its digits without the point,
and the power of ten that they are multiplied by. -/
structure Decimal where
  negative : Bool
  digits : Text
  exponent : Int

/-- The exponent after its letter. -/
def exponent? (text : Text) : Option Int :=
  let (negative, digits) := signed text
  ((ungrouped? Char.isDigit digits).bind Text.decimal?).map fun n => if negative then -n else n

/-- A number with a fraction, an exponent or both. -/
def decimal? (text : Text) : Option Decimal :=
  let (negative, unsigned) := signed text
  let isExponent := fun (c : Char) => c == 'e' || c == 'E'
  let mantissa := unsigned.takeWhile fun c => !isExponent c
  let exponent := match unsigned.dropWhile fun c => !isExponent c with
    | [] => some none
    | _ :: written => (exponent? written).map some
  match Text.cutAt '.' mantissa, exponent with
  | some (whole, fraction), some power => do
    let whole ← decimalDigits? whole
    let fraction ← ungrouped? Char.isDigit fraction
    return ⟨negative, whole ++ fraction, power.getD 0 - fraction.length⟩
  | none, some (some power) => do return ⟨negative, ← decimalDigits? mantissa, power⟩
  | _, _ => none

/-- The least number that rounds to infinity as a float of 64 bits. -/
def floatBound : Nat := (1 <<< 1024) - (1 <<< 970)

/-- A count of digits before the point at which a number surely rounds to infinity. -/
def surelyInfinite : Nat := 400

/-- Whether a number rounds to infinity. -/
def Decimal.overflows (d : Decimal) : Bool :=
  let digits := d.digits.dropWhile (· == '0')
  let places : Int := digits.length + d.exponent
  let mantissa := (Text.decimal? digits).getD 0
  if digits.isEmpty || places < 0 then false
  else if surelyInfinite < places then true
  else decide (floatBound * Nat.pow 10 (-d.exponent).toNat ≤
    mantissa * Nat.pow 10 d.exponent.toNat)

/-- A number that is not an integer. A positive one may not be infinite unless it is written so. -/
def float? (text : Text) : Option (Except Fault Value) :=
  if (signed text).2 = ['i', 'n', 'f'] ∨ (signed text).2 = ['n', 'a', 'n'] then
    some (.ok (.float text))
  else
    (decimal? text).map fun d =>
      if !d.negative && d.overflows then .error .numberRange else .ok (.float text)

/-! ## Moments in time -/

/-- The number of exactly `count` digits at the beginning of a text, and the text after them. -/
def fixedDigits? (count : Nat) (text : Text) : Option (Nat × Text) :=
  if text.length < count then none
  else (Text.decimal? (text.take count)).map fun n => (n, text.drop count)

/-- The text after a given character. -/
def after? (c : Char) (text : Text) : Option Text :=
  List.isPrefixOf? [c] text

/-- How many days a month has. -/
def daysIn (year month : Nat) : Nat :=
  if month = 2 then
    if year % 4 = 0 ∧ (year % 100 ≠ 0 ∨ year % 400 = 0) then 29 else 28
  else if month = 4 ∨ month = 6 ∨ month = 9 ∨ month = 11 then 30
  else 31

/-- The text after a date. -/
def date? (text : Text) : Option Text := do
  let (year, rest) ← fixedDigits? 4 text
  let (month, rest) ← fixedDigits? 2 (← after? '-' rest)
  let (day, rest) ← fixedDigits? 2 (← after? '-' rest)
  guard (1 ≤ month ∧ month ≤ 12 ∧ 1 ≤ day ∧ day ≤ daysIn year month)
  return rest

/-- The text after the hours and minutes of a time. -/
def minutes? (text : Text) : Option Text := do
  let (hour, rest) ← fixedDigits? 2 text
  let (minute, rest) ← fixedDigits? 2 (← after? ':' rest)
  guard (hour ≤ 23 ∧ minute ≤ 59)
  return rest

/-- The text after a time of day. A leap second is allowed for. -/
def time? (text : Text) : Option Text := do
  let (second, rest) ← fixedDigits? 2 (← after? ':' (← minutes? text))
  guard (second ≤ 60)
  match rest with
  | '.' :: fraction =>
    guard (fraction.head?.any Char.isDigit)
    return fraction.dropWhile Char.isDigit
  | _ => return rest

/-- Whether a text is an offset from universal time, or empty. -/
def isOffset (text : Text) : Bool :=
  match text with
  | [] => true
  | [c] => c == 'Z' || c == 'z'
  | sign :: rest => (sign == '+' || sign == '-') && minutes? rest == some []

/-- Whether a text is a date, a time, or a date and a time with or without an offset. -/
def isMoment (text : Text) : Bool :=
  match date? text with
  | some [] => true
  | some (c :: clock) =>
    (c == 'T' || c == 't' || c == ' ') && (time? clock).any isOffset
  | none => time? text == some []

/-! ## Words -/

/-- The value that a word writes. -/
def scalarOf? (word : Text) : Except Fault Value :=
  if word = "true".toList then .ok (.boolean true)
  else if word = "false".toList then .ok (.boolean false)
  else if isMoment word then .ok (.moment word)
  else (based? word).getD ((float? word).getD (decimalInteger word))

/-- A word at the beginning of a text, and the text after it. The word of a date goes on after a
blank if a word follows there. -/
def scalarWord (text : Text) : Text × Text :=
  let word := text.takeWhile isWordChar
  match date? word, text.dropWhile isWordChar with
  | some [], ' ' :: rest =>
    if rest.head?.any isWordChar then
      (word ++ ' ' :: rest.takeWhile isWordChar, rest.dropWhile isWordChar)
    else (word, ' ' :: rest)
  | _, rest => (word, rest)

/-- A number, a truth value or a moment in time. -/
def scalar (text : Text) : Except Fault (Value × Text) :=
  let (word, rest) := scalarWord text
  (scalarOf? word).map (·, rest)

end TrustSchema.Toml
