import TrustSchema.Regex.Simplify
import TrustSchema.Regex.Space

/-!
The space that the automata of an expression take. An expression has two automata over the octets of
a text, one that reads forward and one that reads backward, and neither may exceed the size limit.
Repetitions are written out, so that bounds count.
-/

namespace TrustSchema.Regex

/-- The direction in which an automaton reads. -/
inductive Direction where
  | forward
  | backward
  deriving DecidableEq, Repr

/-- Where an expression stands: alone, or as a branch of an alternation. -/
inductive Standing where
  | alone
  /-- The second branch, after which the fork of the alternation is made. -/
  | second
  /-- A branch after the second. -/
  | later
  deriving DecidableEq, Repr

/-- The least number of characters of a match, if there can be one. -/
def leastLength : Regex → Option Nat
  | empty | look _ => some 0
  | literal characters => some characters.length
  | one members => if members.isEmpty then none else some 1
  | seq first second => do return (← first.leastLength) + (← second.leastLength)
  | alt left right => do return Nat.min (← left.leastLength) (← right.leastLength)
  | repeated body bounds _ => body.leastLength.map (· * bounds.min)
  | group _ body => body.leastLength

/-- Whether every match takes at least one character, and there can be one. -/
def consumes (r : Regex) : Bool :=
  r.leastLength.any (0 < ·)

/-- Whether matches can only begin at the beginning of the text. -/
def anchoredAtStart : Regex → Bool
  | look condition => condition == .textStart
  | seq first second =>
    first.anchoredAtStart || first.matchesOnlyEmpty && second.anchoredAtStart
  | alt left right => left.anchoredAtStart && right.anchoredAtStart
  | repeated body bounds _ => decide (0 < bounds.min) && body.anchoredAtStart
  | group _ body => body.anchoredAtStart
  | empty | literal _ | one _ => false

/-- Whether matches can only end at the end of the text. -/
def anchoredAtEnd : Regex → Bool
  | look condition => condition == .textEnd
  | seq first second => second.anchoredAtEnd || second.matchesOnlyEmpty && first.anchoredAtEnd
  | alt left right => left.anchoredAtEnd && right.anchoredAtEnd
  | repeated body bounds _ => decide (0 < bounds.min) && body.anchoredAtEnd
  | group _ body => body.anchoredAtEnd
  | empty | literal _ | one _ => false

/-- Whether the last state of an expression is a fork, which takes another branch to what
follows. -/
def endsInFork (d : Direction) : Regex → Bool
  | seq first second =>
    match d with
    | .forward => second.endsInFork d
    | .backward => first.endsInFork d
  | repeated body bounds _ =>
    match bounds.max with
    | none => decide (0 < bounds.min) || body.consumes
    | some max => decide (0 < max) && bounds.min == max && body.endsInFork d
  | group _ body => d == .backward && body.endsInFork d
  | empty | literal _ | one _ | look _ | alt _ _ => false

/-- How many octets the branch of the last state of an expression takes, if that is a fork. -/
def exitSize (d : Direction) (r : Regex) : Nat :=
  if r.endsInFork d then branchSize else 0

/-- The words of an alternation of literals, as octets in the order in which they are read. -/
def words? (d : Direction) : Regex → Option (List Bytes)
  | literal characters => some [ordered (Text.toUtf8 characters)]
  | alt (literal characters) right =>
    (right.words? d).map (ordered (Text.toUtf8 characters) :: ·)
  | _ => none
where
  ordered (word : Bytes) : Bytes :=
    match d with
    | .forward => word
    | .backward => word.reverse

/-- The space after one character of a set. If all members are characters of ASCII, one state reads
them. -/
def addSet (d : Direction) (s : CharSet) (space : Space) : Option Space :=
  if s.isAscii then space.add 2 (s.ranges.length * transitionSize)
  else
    match d with
    | .forward => forwardSet s.sequences space
    | .backward => backwardSet s.sequences space

/-- The space after a repetition of an expression, whose copies take space by `copy` and whose last
state takes `exit` octets to go on. -/
def addRepetition (copy : Space → Option Space) (exit : Nat) (consumes : Bool) (bounds : Bounds)
    (space : Space) : Option Space := do
  match bounds.max with
  | none =>
    if 0 < bounds.min then
      (← space.times copy bounds.min).add 1 (bounds.min * exit + branchSize)
    else if consumes then
      (← copy (← space.add 1 branchSize)).add 0 exit
    else
      (← copy space).add 3 (exit + 4 * branchSize)
  | some max =>
    if bounds.min = max then
      if max = 0 then space.add 1 0 else (← space.times copy max).add 0 ((max - 1) * exit)
    else if max = 1 then
      (← copy (← space.add 1 (2 * branchSize))).add 1 exit
    else
      let space ← if bounds.min = 0 then space.add 1 0 else space.times copy bounds.min
      let space ← space.add 1 0
      let optional (space : Space) := do copy (← space.add 1 (2 * branchSize))
      (← space.times optional (max - bounds.min)).add 0 (max * exit)

/-- The space after an expression has been taken up where it stands: a branch gets a branch of the
fork, and goes on to the common end. -/
def Standing.addBranch (standing : Standing) (exit : Nat) (space : Space) : Option Space :=
  match standing with
  | .alone => some space
  | .second => space.add 2 (branchSize + exit)
  | .later => space.add 0 (branchSize + exit)

/-- The space after the states of an expression. -/
def addStates (d : Direction) : Regex → Standing → Space → Option Space
  | alt left right, standing, space =>
    match standing, (alt left right).words? d with
    | .alone, some words => addWords words space
    | .alone, none => do
      let space ← left.addStates d .alone space
      right.addStates d .second (← Standing.later.addBranch (left.exitSize d) space)
    | _, _ => do
      let space ← left.addStates d .alone space
      right.addStates d .later (← standing.addBranch (left.exitSize d) space)
  | empty, standing, space | look _, standing, space => do
    standing.addBranch 0 (← space.add 1 0)
  | literal characters, standing, space => do
    standing.addBranch 0 (← space.add (Nat.max 1 (Text.utf8Size characters)) 0)
  | one members, standing, space => do
    standing.addBranch 0 (← addSet d members space)
  | seq first second, standing, space => do
    let space ←
      match d with
      | .forward => do
        let space ← first.addStates d .alone space
        (← second.addStates d .alone space).add 0 (first.exitSize d)
      | .backward => do
        let space ← second.addStates d .alone space
        (← first.addStates d .alone space).add 0 (second.exitSize d)
    standing.addBranch ((seq first second).exitSize d) space
  | repeated body bounds greedy, standing, space => do
    let space ← addRepetition (body.addStates d .alone) (body.exitSize d) body.consumes bounds space
    standing.addBranch ((repeated body bounds greedy).exitSize d) space
  | group number body, standing, space => do
    let space ←
      match d with
      | .forward => do
        let space ← body.addStates d .alone (← space.add 1 0)
        space.add 1 (body.exitSize d)
      | .backward => body.addStates d .alone space
    standing.addBranch ((group number body).exitSize d) space

/-- Whether matches can only begin where the automaton begins to read. -/
def anchoredAt (d : Direction) (r : Regex) : Bool :=
  match d with
  | .forward => r.anchoredAtStart
  | .backward => r.anchoredAtEnd

/-- The space of the automaton of an expression. An expression that is not anchored is preceded by
a loop over any octets. The whole match is captured as group 0, and the last state accepts. -/
def automatonSpace (d : Direction) (r : Regex) : Option Space := do
  let start ←
    if r.anchoredAt d then Space.zero.add 1 0
    else Space.zero.add 3 (2 * branchSize + transitionSize)
  (← (group 0 r).addStates d .alone start).add 1 ((group 0 r).exitSize d)

/-- Whether the automata of an expression stay within the size limit. -/
def fits (r : Regex) : Bool :=
  (r.automatonSpace .forward).isSome && (r.automatonSpace .backward).isSome

end TrustSchema.Regex
