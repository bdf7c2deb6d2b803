import TrustSchema.Regex.Layout
import TrustSchema.Regex.Token

/-!
Reading regular expressions. The tokens are taken one after another; the groups that are open are
kept, innermost first, each with the flags in force, the alternatives that are finished and the
pieces of the one that is not. What is read is kept in a simple form.
-/

namespace TrustSchema.Regex

namespace Flags

/-- The flags after a change. -/
def changed (flags : Flags) (change : FlagChange) : Flags :=
  ⟨change.ignoreCase.getD flags.ignoreCase, change.unicode.getD flags.unicode,
    change.multiLine.getD flags.multiLine, change.dotAll.getD flags.dotAll,
    change.crlf.getD flags.crlf, change.swapGreed.getD flags.swapGreed,
    change.ignoreSpace.getD flags.ignoreSpace⟩

/-- The set of a single character. Outside Unicode mode an octet beyond ASCII is no character. -/
def literal (flags : Flags) (c : Char) (asOctet : Bool) : Except Fault CharSet :=
  if asOctet && !flags.unicode && decide (0x80 ≤ c.toNat) then .error .invalidUtf8
  else .ok (flags.folded (.only c))

/-- The set of a period. -/
def anyCharacter (flags : Flags) : Except Fault CharSet :=
  if flags.unicode then .ok (.period flags.dotAll flags.crlf) else .error .invalidUtf8

/-- The condition of a caret. -/
def lineStart (flags : Flags) : Look :=
  if flags.multiLine then .lineStart flags.crlf else .textStart

/-- The condition of a dollar sign. -/
def lineEnd (flags : Flags) : Look :=
  if flags.multiLine then .lineEnd flags.crlf else .textEnd

end Flags

/-- A part of a sequence and how deep it nests. A setting of flags is a part that matches nothing
and cannot be repeated. -/
structure Piece where
  regex : Option Regex
  height : Nat
  deriving DecidableEq

/-- A group that is open: its alternatives, last first, and the pieces of the unfinished one, last
first. -/
structure OpenGroup where
  /-- The number of the group, if it captures. -/
  number : Option Nat
  flags : Flags
  branches : List (Regex × Nat)
  pieces : List Piece
  deriving DecidableEq

namespace OpenGroup

/-- A group with nothing in it. -/
def start (number : Option Nat) (flags : Flags) : OpenGroup := ⟨number, flags, [], []⟩

/-- One piece more. -/
def add (g : OpenGroup) (r : Regex) (height : Nat) : OpenGroup :=
  { g with pieces := ⟨some r, height⟩ :: g.pieces }

/-- The pieces as one expression. Several of them count as one level of nesting. -/
def sequence (g : OpenGroup) : Regex × Nat :=
  let height := (g.pieces.map (·.height)).foldl Nat.max 0
  (concat (g.pieces.reverse.filterMap (·.regex)),
    if 2 ≤ g.pieces.length then height + 1 else height)

/-- The group after a bar. -/
def nextBranch (g : OpenGroup) : OpenGroup :=
  { g with branches := g.sequence :: g.branches, pieces := [] }

/-- The contents of the group as one expression. Several alternatives count as one level of
nesting. -/
def contents (g : OpenGroup) : Regex × Nat :=
  match g.branches with
  | [] => g.sequence
  | _ =>
    let all := g.branches.reverse ++ [g.sequence]
    (alternation (all.map Prod.fst), (all.map Prod.snd).foldl Nat.max 0 + 1)

/-- The whole group as one expression, which is one level of nesting. -/
def finish (g : OpenGroup) : Regex × Nat :=
  let (r, height) := g.contents
  match g.number with
  | some number => (.group number r, height + 1)
  | none => (r, height + 1)

/-- The group with its last piece repeated. -/
def repeatLast (g : OpenGroup) (bounds : Bounds) (greedy : Bool) : Except Fault OpenGroup :=
  match g.pieces with
  | ⟨some r, height⟩ :: before =>
    .ok { g with pieces := ⟨some (repetition r bounds greedy), height + 1⟩ :: before }
  | _ => .error .nothingToRepeat

end OpenGroup

/-- What is known after some tokens: the open groups, innermost first, and how many groups that
capture have begun. -/
structure Builder where
  current : OpenGroup
  outer : List OpenGroup
  captures : Nat
  deriving DecidableEq

namespace Builder

/-- Nothing read yet. -/
def start : Builder := ⟨.start none .initial, [], 0⟩

/-- One piece more. -/
def add (b : Builder) (r : Regex) (height : Nat) : Builder :=
  { b with current := b.current.add r height }

/-- The beginning of a group, which is numbered if it captures. -/
def openGroup (b : Builder) (captures : Bool) (change : FlagChange) : Builder :=
  let count := if captures then b.captures + 1 else b.captures
  let number := if captures then some count else none
  ⟨.start number (b.current.flags.changed change), b.current :: b.outer, count⟩

/-- One token more. -/
def step (b : Builder) : Token → Except Fault Builder
  | .literal c asOctet => do return b.add (ofSet (← b.current.flags.literal c asOctet)) 0
  | .anyCharacter => do return b.add (ofSet (← b.current.flags.anyCharacter)) 0
  | .charClass members height => do
    return b.add (ofSet (← members.members b.current.flags)) height
  | .condition kind => .ok (b.add (.look kind) 0)
  | .lineStart => .ok (b.add (.look b.current.flags.lineStart) 0)
  | .lineEnd => .ok (b.add (.look b.current.flags.lineEnd) 0)
  | .groupOpen captures change => .ok (b.openGroup captures change)
  | .groupClose =>
    match b.outer with
    | [] => .error .unopenedGroup
    | around :: outer =>
      let (r, height) := b.current.finish
      .ok { b with current := around.add r height, outer := outer }
  | .flags change =>
    .ok { b with
      current :=
        { b.current with
          flags := b.current.flags.changed change
          pieces := ⟨none, 0⟩ :: b.current.pieces } }
  | .bar => .ok { b with current := b.current.nextBranch }
  | .repetition bounds marked => do
    let greedy := marked == b.current.flags.swapGreed
    return { b with current := ← b.current.repeatLast bounds greedy }

/-- Everything that a text adds to what is known. -/
def read [PropertyTable] (b : Builder) (text : Text) : Except Fault Builder :=
  match _skipped : skipBlanks b.current.flags.ignoreSpace text with
  | [] => .ok b
  | c :: rest =>
    match _read : tokenFrom b.current.flags.ignoreSpace c rest with
    | .error fault => .error fault
    | .ok (t, after) =>
      match b.step t with
      | .error fault => .error fault
      | .ok later => later.read after
termination_by text.length
decreasing_by
  have blanks := skipBlanks_length b.current.flags.ignoreSpace text
  have one := tokenFrom_length _read
  simp only [_skipped, List.length_cons] at blanks
  omega

section

variable [PropertyTable] {b : Builder} {text : Text}

theorem read_of_nil (skipped : skipBlanks b.current.flags.ignoreSpace text = []) :
    b.read text = .ok b := by
  rw [read]
  split
  next => rfl
  next found => cases skipped.symm.trans found

theorem read_of_cons {c : Char} {rest after : Text} {t : Token}
    (skipped : skipBlanks b.current.flags.ignoreSpace text = c :: rest)
    (first : tokenFrom b.current.flags.ignoreSpace c rest = .ok (t, after)) :
    b.read text = b.step t >>= fun later => later.read after := by
  rw [read]
  split
  next none => cases skipped.symm.trans none
  next found =>
    cases skipped.symm.trans found
    split
    next failed => cases first.symm.trans failed
    next again =>
      cases first.symm.trans again
      split <;> simp only [*] <;> rfl

end

/-- The expression, if no group is open at the end and it does not nest too deep. -/
def finish (b : Builder) : Except Fault Regex :=
  match b.outer with
  | _ :: _ => .error .unclosedGroup
  | [] => if maxNesting < b.current.contents.2 then .error .tooNested else .ok b.current.contents.1

end Builder

/-- The expression that a text writes, if its automata fit the size limit. -/
def parse? [PropertyTable] (text : Text) : Except Fault Regex := do
  let r ← (← Builder.start.read text).finish
  if !r.fits then throw .tooLarge
  return r

end TrustSchema.Regex
