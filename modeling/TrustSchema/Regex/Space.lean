import Std.Data.HashMap
import TrustSchema.Regex.Error
import TrustSchema.Regex.Octets

/-!
The space that automata over octets take for sets of characters and for sets of words. States are
numbered in the order in which they are made. Equal parts of an automaton for a set share their
states as far as a small table remembers them: the place of an entry in the table comes from a hash
of its key, and a later entry displaces an earlier one at the same place.
-/

namespace TrustSchema.Regex

/-! ## Space -/

/-- How many octets a state takes. -/
def stateSize : Nat := 32

/-- How many octets a transition out of a state takes, if it may have several. -/
def transitionSize : Nat := 8

/-- How many octets a branch of a fork takes. A fork is a state that goes on in several ways without
reading an octet. -/
def branchSize : Nat := 4

/-- The space taken so far. -/
structure Space where
  states : Nat
  /-- How many octets transitions and branches take. -/
  links : Nat
  deriving DecidableEq, Repr

namespace Space

/-- No space. -/
def zero : Space := ⟨0, 0⟩

def octets (s : Space) : Nat :=
  s.states * stateSize + s.links

/-- More space, if it stays within the limit. -/
def add (s : Space) (states links : Nat) : Option Space :=
  let after : Space := ⟨s.states + states, s.links + links⟩
  if sizeLimit < after.octets then none else some after

/-- Takes space a number of times. -/
def times (step : Space → Option Space) : Nat → Space → Option Space
  | 0, s => some s
  | n + 1, s =>
    match step s with
    | some after => times step n after
    | none => none

end Space

/-! ## Remembering states -/

/-- The FNV-1a hash of no numbers. -/
def hashStart : UInt64 := 14695981039346656037

/-- The FNV-1a hash of one number more. -/
def hashNext (hash number : UInt64) : UInt64 :=
  (hash ^^^ number) * 1099511628211

/-- States by their places in a table, each with the key that it was made for. -/
abbrev StateTable (Key : Type) := Std.HashMap Nat (Key × Nat)

/-- The number of the state that was made for a key, if it is still in its place in the table. -/
def knownState? {Key : Type} [DecidableEq Key] (key : Key) (place : Nat)
    (table : StateTable Key) : Option Nat :=
  match table[place]? with
  | some (known, number) => if known = key then some number else none
  | none => none

/-- The number of the state for a key: a known one, or a new one that takes its place in the
table. -/
def stateFor {Key : Type} [DecidableEq Key] (key : Key) (place links : Nat)
    (table : StateTable Key) (space : Space) : Option (Nat × StateTable Key × Space) :=
  match knownState? key place table with
  | some number => some (number, table, space)
  | none =>
    (space.add 1 links).map fun after =>
      (space.states, table.insert place (key, space.states), after)

/-! ## Sets, read forward -/

/-- Where a state goes when it reads an octet of a range. -/
structure Transition where
  octets : OctetRange
  target : Nat
  deriving DecidableEq

/-- How many places the table of the states of a set has. -/
def forwardPlaces : UInt64 := 10000

/-- The place of a state in the table. -/
def transitionsPlace (transitions : List Transition) : Nat :=
  let hash := transitions.foldl (fun hash t =>
    hashNext (hashNext (hashNext hash t.octets.first.toUInt64) t.octets.last.toUInt64)
      t.target.toUInt64) hashStart
  (hash % forwardPlaces).toNat

/-- A state that may get further transitions. The target of its last one is not known yet. -/
structure OpenState where
  transitions : List Transition
  last : Option OctetRange

/-- A state whose only transition is for the given octets. -/
def OpenState.start (octets : OctetRange) : OpenState := ⟨[], some octets⟩

/-- The transitions of a state whose last one goes to `target`. -/
def OpenState.finish (state : OpenState) (target : Nat) : List Transition :=
  match state.last with
  | some octets => state.transitions ++ [⟨octets, target⟩]
  | none => state.transitions

/-- Finishes the open states of a path, the deepest one first, and gives the number of the first
state; that of an empty path is `target`. -/
def finishPath (target : Nat) : List OpenState → StateTable (List Transition) → Space →
    Option (Nat × StateTable (List Transition) × Space)
  | [], table, space => some (target, table, space)
  | state :: deeper, table, space => do
    let (next, table, space) ← finishPath target deeper table space
    let transitions := state.finish next
    stateFor transitions (transitionsPlace transitions) (transitions.length * transitionSize) table
      space

/-- Takes up a sequence of octet ranges. The states of the path that it has in common with the
sequence before it stay open; those after them are finished. -/
def followSequence (target : Nat) : List OpenState → List OctetRange →
    StateTable (List Transition) → Space →
    Option (List OpenState × StateTable (List Transition) × Space)
  | state :: deeper, octets :: later, table, space =>
    if state.last = some octets then do
      let (path, table, space) ← followSequence target deeper later table space
      return (state :: path, table, space)
    else do
      let (next, table, space) ← finishPath target deeper table space
      return (⟨state.finish next, some octets⟩ :: later.map .start, table, space)
  | [], sequence, table, space => some (sequence.map .start, table, space)
  | path, [], table, space => some (path, table, space)

/-- Takes up sequences one after another and finishes the last path. -/
def followSequences (target : Nat) : List (List OctetRange) → List OpenState →
    StateTable (List Transition) → Space → Option Space
  | [], path, table, space => do
    let (_, _, space) ← finishPath target path table space
    return space
  | sequence :: rest, path, table, space => do
    let (path, table, space) ← followSequence target path sequence table space
    followSequences target rest path table space

/-- The space after the states of a set that is read forward: the state where it ends, and those
that lead there. -/
def forwardSet (sequences : List (List OctetRange)) (space : Space) : Option Space := do
  let target := space.states
  let space ← space.add 1 0
  followSequences target sequences [⟨[], none⟩] ∅ space

/-! ## Sets, read backward -/

/-- How many places the table of the states of a set has that is read backward. -/
def backwardPlaces : UInt64 := 1000

/-- The place of a state that reads an octet of a range and goes to `target`. -/
def transitionPlace (t : Transition) : Nat :=
  let hash := hashNext (hashNext (hashNext hashStart t.target.toUInt64) t.octets.first.toUInt64)
    t.octets.last.toUInt64
  (hash % backwardPlaces).toNat

/-- The states that read the octets of a sequence, the last of them first, on the way to
`target`. -/
def backwardSequence (target : Nat) : List OctetRange → StateTable Transition → Space →
    Option (StateTable Transition × Space)
  | [], table, space => some (table, space)
  | octets :: later, table, space => do
    let transition : Transition := ⟨octets, target⟩
    let (number, table, space) ←
      stateFor transition (transitionPlace transition) 0 table space
    backwardSequence number later table space

/-- The states for sequences one after another, each with a branch to it. -/
def backwardSequences (target : Nat) : List (List OctetRange) → StateTable Transition → Space →
    Option Space
  | [], _, space => some space
  | sequence :: rest, table, space => do
    let (table, space) ← backwardSequence target sequence table space
    backwardSequences target rest table (← space.add 0 branchSize)

/-- The space after the states of a set that is read backward: a fork, the state where it ends, and
those between them. -/
def backwardSet (sequences : List (List OctetRange)) (space : Space) : Option Space := do
  let space ← space.add 2 0
  backwardSequences (space.states - 1) sequences ∅ space

/-! ## Words -/

/-- Words with the same beginning, without it, in the runs between those that end there. A word that
ends there before any other is followed counts once. -/
def wordRuns (words : List Bytes) : List (List Bytes) :=
  match words with
  | [] :: rest => [] :: runs (rest.dropWhile List.isEmpty)
  | _ => runs words
where
  runs : List Bytes → List (List Bytes)
    | [] => [[]]
    | [] :: rest => [] :: runs rest
    | word :: rest =>
      match runs rest with
      | run :: later => (word :: run) :: later
      | [] => [[word]]

/-- The octets that words begin with, each once. -/
def firstOctets (words : List Bytes) : List UInt8 :=
  (words.filterMap List.head?).eraseDups

/-- What follows an octet in the words that begin with it. -/
def wordsAfter (first : UInt8) (words : List Bytes) : List Bytes :=
  words.filterMap fun
    | octet :: rest => if octet = first then some rest else none
    | [] => none

/-- The space of a state for words of at most `depth` octets and of all states after it. Where only
one word ends, nothing is needed. -/
def wordSpace : Nat → List Bytes → Space
  | 0, _ => .zero
  | depth + 1, words =>
    if words.all List.isEmpty then .zero
    else
      let runs := wordRuns words
      let own : Space := ⟨1, (runs.length - 1) * branchSize⟩
      runs.foldl (fun space run =>
        match firstOctets run with
        | [] => space
        | firsts =>
          let links := if firsts.length = 1 then 0 else firsts.length * transitionSize
          firsts.foldl (fun space first =>
            let after := wordSpace depth (wordsAfter first run)
            ⟨space.states + after.states, space.links + after.links⟩)
            ⟨space.states + 1, space.links + branchSize + links⟩) own

/-- The space after the states for some words: the state where they end, and those that lead
there. -/
def addWords (words : List Bytes) (space : Space) : Option Space :=
  let depth := (words.map List.length).foldl Nat.max 0
  let needed := wordSpace depth words
  space.add (needed.states + 1) needed.links

end TrustSchema.Regex
