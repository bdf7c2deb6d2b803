import TrustSchema.Pattern.Parser
import TrustSchema.Text.Utf8

/-!
Reading a body by offsets. The reader of name patterns works on what is left of a body; this one
keeps the body whole and moves through the octets of its UTF-8 form. An octet is looked at wherever
the reader stands, text can only be taken between characters, and what is taken for granted about
offsets is checked where it is needed: a broken assertion stops the reader like a fault does.
-/

namespace TrustSchema.Pattern

variable {α : Type}

/-! ### Offsets -/

/-- A character of the text begins at the offset, or the text ends there. -/
def Boundary (text : Text) (pos : Nat) : Prop :=
  (String.Pos.Raw.mk pos).IsValid (String.ofList text)

instance (text : Text) (pos : Nat) : Decidable (Boundary text pos) :=
  inferInstanceAs (Decidable (String.Pos.Raw.IsValid _ _))

/-- What the reader takes for granted about the offsets of a body. -/
inductive Assertion where
  /-- The reader stands at an offset. -/
  | position (pos : Nat)
  /-- The text between two offsets is taken. -/
  | slice (start stop : Nat)
  /-- An element begins at the first offset, and the reader goes on at the second one. -/
  | progress (start stop : Nat)
  deriving Repr

/-- What an assertion says. -/
def Assertion.Holds (body : Text) : Assertion → Prop
  | .position pos => pos ≤ body.utf8Size ∧ Boundary body pos
  | .slice start stop => start ≤ stop ∧ Boundary body start ∧ Boundary body stop
  | .progress start stop => start < stop

instance (body : Text) : (a : Assertion) → Decidable (a.Holds body)
  | .position _ => inferInstanceAs (Decidable (_ ∧ _))
  | .slice _ _ => inferInstanceAs (Decidable (_ ∧ _ ∧ _))
  | .progress _ _ => inferInstanceAs (Decidable (_ < _))

/-- Why the reader stops before the end. -/
inductive Stop where
  /-- The body is no pattern. -/
  | fault (fault : Fault)
  /-- An offset is not what the reader takes it for. -/
  | broken (assertion : Assertion)
  deriving Repr

/-- Stop if an assertion is broken. -/
def check (body : Text) (a : Assertion) : Except Stop Unit :=
  if a.Holds body then .ok () else .error (.broken a)

/-- Stand at an offset. -/
def moveTo (body : Text) (pos : Nat) : Except Stop Nat := do
  check body (.position pos)
  return pos

/-- The octet at an offset, wherever that is. -/
def octetAt (body : Text) (pos : Nat) : Option UInt8 :=
  body.toUtf8[pos]?

theorem lt_of_octetAt {body : Text} {pos : Nat} {c : UInt8} (here : octetAt body pos = some c) :
    pos < body.utf8Size := by
  obtain ⟨inside, -⟩ := List.getElem?_eq_some_iff.mp here
  rwa [Text.length_toUtf8] at inside

/-- The text of the first octets, and the text after them. -/
def splitOctets : Nat → Text → Text × Text
  | 0, text => ([], text)
  | _ + 1, [] => ([], [])
  | size + 1, c :: rest =>
    let (before, after) := splitOctets (size + 1 - c.utf8Size) rest
    (c :: before, after)

/-- The text between two offsets. -/
def slice (body : Text) (start stop : Nat) : Except Stop Text := do
  check body (.slice start stop)
  return (splitOctets (stop - start) (splitOctets start body).2).1

/-- How many octets stand before the first `stop`. -/
def find? (stop : Char) (text : Text) : Option Nat :=
  (Text.cutAt stop text).map fun (before, _) => before.utf8Size

/-! ### Readers -/

/-- What the text from after the character at an offset up to the next `stop` writes, and the offset
after that. -/
def enclosed {β : Type} (body : Text) (stop : Char) (missing : Fault)
    (value? : Text → Except Fault β) (pos : Nat) : Except Stop (β × Nat) := do
  check body (.position pos)
  let rest ← slice body (pos + 1) body.utf8Size
  match find? stop rest with
  | none => throw (.fault missing)
  | some size =>
    let next ← moveTo body (pos + 1 + size + 1)
    let written ← slice body (pos + 1) (pos + 1 + size)
    let value ← (value? written).mapError .fault
    return (value, next)

/-- The bounds between braces. -/
def boundsAt (body : Text) (pos : Nat) : Except Stop (Bounds × Nat) :=
  enclosed body '}' .unterminatedBounds boundsOf? pos

/-- The repetition after an element. -/
def repetitionAt (body : Text) (pos : Nat) : Except Stop (Bounds × Nat) := do
  check body (.position pos)
  if octetAt body pos = some '*'.toUInt8 then return (.atLeast 0, ← moveTo body (pos + 1))
  else if octetAt body pos = some '+'.toUInt8 then return (.atLeast 1, ← moveTo body (pos + 1))
  else if octetAt body pos = some '?'.toUInt8 then return (.atMost 1, ← moveTo body (pos + 1))
  else if octetAt body pos = some '{'.toUInt8 then boundsAt body pos
  else return (.exactly 1, pos)

section

variable [ComponentLanguage α]

/-- A test between angle brackets. -/
def componentAt (body : Text) (pos : Nat) : Except Stop (ComponentPattern α × Nat) :=
  enclosed body '>' .unterminatedComponent componentOf? pos

/-- The members of a set, up to its closing bracket. -/
def membersAt (body : Text) (pos : Nat) : Except Stop (List (ComponentPattern α) × Nat) := do
  match _here : octetAt body pos with
  | none => throw (.fault .unterminatedSet)
  | some c =>
    if c = '<'.toUInt8 then
      let (member, next) ← componentAt body pos
      if _further : pos < next then
        let (members, last) ← membersAt body next
        return (member :: members, last)
      else throw (.broken (.progress pos next))
    else if c = ']'.toUInt8 then return ([], ← moveTo body (pos + 1))
    else throw (.fault .notInSet)
termination_by body.utf8Size - pos
decreasing_by
  have := lt_of_octetAt _here
  omega

/-- Whether a set is negated, and where its members begin. -/
def negationAt (body : Text) (pos : Nat) : Except Stop (Bool × Nat) := do
  if octetAt body pos = some '^'.toUInt8 then return (true, ← moveTo body (pos + 1))
  else return (false, pos)

/-- A set of tests. -/
def setAt (body : Text) (pos : Nat) : Except Stop (ComponentTest α × Nat) := do
  check body (.position pos)
  let (negated, first) ← negationAt body (← moveTo body (pos + 1))
  let (members, next) ← membersAt body first
  if members.isEmpty then throw (.fault .emptySet)
  else return (.set negated members, next)

/-- A test that begins with the octet `c`. -/
def testAt (body : Text) (c : UInt8) (pos : Nat) : Except Stop (ComponentTest α × Nat) := do
  if c = '<'.toUInt8 then
    let (member, next) ← componentAt body pos
    return (.single member, next)
  else if c = '['.toUInt8 then setAt body pos
  else if c = '*'.toUInt8 ∨ c = '+'.toUInt8 ∨ c = '?'.toUInt8 ∨ c = '{'.toUInt8 then
    throw (.fault (.nothingToRepeat (Char.ofNat c.toNat) pos))
  else if c = '^'.toUInt8 then throw (.fault .misplacedStart)
  else if c = '$'.toUInt8 then throw (.fault .misplacedEnd)
  else
    let rest ← slice body pos body.utf8Size
    throw (.fault (.unexpected (rest.headD '?') pos))

/-- The elements from an offset on, inside `depth` groups: up to the end of the body or the closing
parenthesis of the innermost group. `nodes` holds the elements before them, last first. -/
def elementsAt (body : Text) (depth : Nat) (nodes : List (Node α)) (pos : Nat) :
    Except Stop (List (Node α) × Nat) := do
  check body (.position pos)
  match _here : octetAt body pos with
  | none => return (nodes.reverse, pos)
  | some c =>
    -- The parenthesis is left for the reader of the group that it closes.
    if c = ')'.toUInt8 then
      if 0 < depth then return (nodes.reverse, pos) else throw (.fault .unopenedGroup)
    else
      let (node, middle) ←
        if c = '('.toUInt8 then
          let (inside, close) ← elementsAt body (depth + 1) [] (pos + 1)
          if octetAt body close = some ')'.toUInt8 then
            pure (Node.group inside, ← moveTo body (close + 1))
          else throw (.fault .unclosedGroup)
        else
          let (test, middle) ← testAt body c pos
          pure (Node.one test, middle)
      let (bounds, next) ← repetitionAt body middle
      if _further : pos < next then elementsAt body depth (node bounds :: nodes) next
      else throw (.broken (.progress pos next))
termination_by body.utf8Size - pos
decreasing_by
  all_goals
    have := lt_of_octetAt _here
    omega

/-- The pattern that a text writes, read by offsets. -/
def compileAt? (text : Text) : Except Stop (Pattern α) := do
  let (anchoredStart, rest) := startAnchor text
  let (anchoredEnd, body) := endAnchor rest
  let (nodes, _) ← elementsAt body 0 [] 0
  return ⟨text, anchoredStart, anchoredEnd, nodes⟩

end

end TrustSchema.Pattern
