import TrustSchema.Pattern.Error
import TrustSchema.Positions.Bounds
import TrustSchema.Text.Blank

/-!
The bounds of a repetition as they are written after an element: one of the signs `*`, `+` and `?`,
or one or two numbers between braces, the second after a comma. One of two numbers may be missing.
-/

namespace TrustSchema.Pattern

/-- Numbers in bounds are below this limit. -/
def countLimit : Nat := UInt64.size

/-- The text without a leading plus sign. -/
def dropPlus (text : Text) : Text :=
  match text with
  | '+' :: digits => digits
  | _ => text

/-- The number that a text with white space around it writes, if it is not blank. The second
argument is the text between the braces. -/
def countOf? (written : Text) (text : Text) : Except Fault (Option Nat) :=
  let trimmed := Text.trim text
  if trimmed.isEmpty then .ok none
  else
    match Text.decimal? (dropPlus trimmed) with
    | some n => if n < countLimit then .ok (some n) else .error (.invalidBounds written)
    | none => .error (.invalidBounds written)

/-- The bounds with a least and a greatest number, of which one may be missing. -/
def boundsBetween (written : Text) : Option Nat → Option Nat → Except Fault Bounds
  | none, none => .error (.emptyBounds true)
  | some least, none => .ok (.atLeast least)
  | none, some greatest => .ok (.atMost greatest)
  | some least, some greatest =>
    match Bounds.between? least greatest with
    | some bounds => .ok bounds
    | none => .error (.invertedBounds written)

/-- The bounds that are written between braces. -/
def boundsOf? (written : Text) : Except Fault Bounds :=
  match Text.cutAt ',' written with
  | some (before, after) => do
    boundsBetween written (← countOf? written before) (← countOf? written after)
  | none => do
    match ← countOf? written written with
    | some n => return .exactly n
    | none => throw (.emptyBounds false)

/-- The bounds at the beginning of a text, and the text after them. Without a sign of repetition an
element stands once. -/
def repetition (text : Text) : Except Fault (Bounds × Text) :=
  match text with
  | '*' :: rest => .ok (.atLeast 0, rest)
  | '+' :: rest => .ok (.atLeast 1, rest)
  | '?' :: rest => .ok (.atMost 1, rest)
  | '{' :: rest =>
    match Text.cutAt '}' rest with
    | some (written, after) => (boundsOf? written).map (·, after)
    | none => .error .unterminatedBounds
  | _ => .ok (.exactly 1, text)

theorem repetition_length {text after : Text} {bounds : Bounds}
    (read : repetition text = .ok (bounds, after)) : after.length ≤ text.length := by
  unfold repetition at read
  split at read
  case h_4 =>
    split at read
    · rename_i written later cut
      obtain ⟨b, inner, same⟩ := Text.ok_of_map read
      obtain ⟨-, rfl⟩ := Prod.mk.injEq .. ▸ same
      exact Nat.le_succ_of_le (Nat.le_of_lt (Text.cutAt_length cut))
    · simp at read
  all_goals
    simp only [Except.ok.injEq, Prod.mk.injEq] at read
    simp [← read.2]

end TrustSchema.Pattern
