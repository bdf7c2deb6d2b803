import TrustSchema.Pattern.Language

/-!
Regular expressions as they are documented, with their signs left open. What the signs are is a
matter of the engine: a lexicon says which sign comes next in a text under the flags in force. How
signs make up an expression is the same everywhere: a repetition belongs to the piece before it,
pieces make up a sequence, sequences between bars are alternatives, and a group is one piece of the
group around it, with flags of its own.
-/

namespace TrustSchema.Regex

/-- What an expression matches: whether it matches a text from one position to another. -/
abbrev Meaning := Text → Nat → Nat → Prop

namespace Meaning

/-- The empty match. -/
def nothing : Meaning := fun _ p q => p = q

/-- The empty match at the beginning of the text. -/
def textStart : Meaning := fun _ p q => p = 0 ∧ q = 0

/-- The empty match at the end of the text. -/
def textEnd : Meaning := fun text p q => p = text.length ∧ q = text.length

/-- One match after another. -/
def followedBy (m n : Meaning) : Meaning := fun text p q => ∃ k, m text p k ∧ n text k q

/-- Matches of some expressions, one after another. -/
def inTurn (ms : List Meaning) : Meaning := ms.foldr followedBy nothing

/-- A match of one of some expressions. -/
def anyOf (ms : List Meaning) : Meaning := fun text p q => ∃ m ∈ ms, m text p q

/-- A number of matches, one after another. -/
def times (m : Meaning) : Nat → Meaning
  | 0 => nothing
  | count + 1 => (m.times count).followedBy m

/-- As many matches as bounds allow, one after another. -/
def repeated (m : Meaning) (b : Bounds) : Meaning :=
  fun text p q => ∃ count, b.allow count ∧ m.times count text p q

/-- A match from the first to the last character of a text. -/
def MatchesWhole (m : Meaning) (text : Text) : Prop := m text 0 text.length

/-- A match somewhere in a text. -/
def Occurs (m : Meaning) (text : Text) : Prop := ∃ p ≤ text.length, ∃ q, m text p q

end Meaning

/-- A sign of an expression, for flags of some kind. -/
inductive Sign (F : Type) where
  /-- A character, a class or a condition. -/
  | piece (meaning : Meaning)
  | repetition (bounds : Bounds)
  /-- The beginning of a group, with the flags inside it. -/
  | opening (inside : F)
  | closing
  | bar
  /-- Flags for the rest of the group. -/
  | setting (later : F)

/-- What the signs of an expression are. -/
structure Lexicon (F : Type) where
  /-- The flags at the beginning of an expression. -/
  initial : F
  /-- The first sign of a text and the text after it, or nothing if no sign comes. -/
  next : F → Text → Except Fault (Option (Sign F × Text))

/-! ### Signs in a row -/

variable {F : Type}

/-- A group that is open: its alternatives, last first, and the pieces of the unfinished one, last
first. A setting of flags is a piece that matches nothing and cannot be repeated. -/
structure Group (F : Type) where
  flags : F
  branches : List Meaning
  pieces : List (Option Meaning)

namespace Group

/-- A group with nothing in it. -/
def start (flags : F) : Group F := ⟨flags, [], []⟩

/-- One piece more. -/
def add (g : Group F) (piece : Option Meaning) : Group F :=
  { g with pieces := piece :: g.pieces }

/-- What the unfinished alternative matches. -/
def sequence (g : Group F) : Meaning := .inTurn (g.pieces.reverse.filterMap id)

/-- What the group matches. -/
def contents (g : Group F) : Meaning := .anyOf (g.branches.reverse ++ [g.sequence])

end Group

/-- A place in an expression: the groups that are open there, innermost first. -/
structure Place (F : Type) where
  current : Group F
  outer : List (Group F)

namespace Place

/-- The beginning of an expression. -/
def start (flags : F) : Place F := ⟨.start flags, []⟩

/-- The place after a sign, unless the sign is out of place. -/
def step (s : Place F) : Sign F → Option (Place F)
  | .piece meaning => some { s with current := s.current.add meaning }
  | .repetition bounds =>
    match s.current.pieces with
    | some meaning :: before =>
      some { s with
        current := { s.current with pieces := some (meaning.repeated bounds) :: before } }
    | _ => none
  | .opening inside => some ⟨.start inside, s.current :: s.outer⟩
  | .closing =>
    match s.outer with
    | [] => none
    | around :: outer => some ⟨around.add s.current.contents, outer⟩
  | .bar =>
    some { s with
      current :=
        { s.current with branches := s.current.sequence :: s.current.branches, pieces := [] } }
  | .setting later => some { s with current := { s.current.add none with flags := later } }

end Place

namespace Lexicon

variable (lexicon : Lexicon F)

/-- A text leads from one place to another, sign by sign. -/
inductive Reads : Place F → Text → Place F → Prop
  | done {s text} : lexicon.next s.current.flags text = .ok none → Reads s text s
  | cons {s text sign rest s' last} :
      lexicon.next s.current.flags text = .ok (some (sign, rest)) → s.step sign = some s' →
      Reads s' rest last → Reads s text last

/-- A text is an expression with a given meaning: its signs leave no group open. -/
def Writes (text : Text) (meaning : Meaning) : Prop :=
  ∃ last, lexicon.Reads (.start lexicon.initial) text last ∧ last.outer = [] ∧
    last.current.contents = meaning

/-- A text is an expression on its own. -/
def Valid (text : Text) : Prop := ∃ meaning, lexicon.Writes text meaning

/-- A parenthesis of a text closes a group that the text does not open: what stands before it is an
expression, and nothing that begins with both is. -/
def Overcloses (text : Text) : Prop :=
  ∃ inside after, text = inside ++ ')' :: after ∧ lexicon.Valid inside ∧
    ∀ other, ¬lexicon.Valid (inside ++ ')' :: other)

/-- The first sign of a text ends before `stop`, which ends the text. -/
def EndsBy (flags : F) (text stop : Text) : Prop :=
  ∃ sign rest, lexicon.next flags text = .ok (some (sign, rest)) ∧ stop <:+ rest

variable {lexicon}

theorem reads_iff {s s' final : Place F} {text rest : Text} {sign : Sign F}
    (first : lexicon.next s.current.flags text = .ok (some (sign, rest)))
    (stepped : s.step sign = some s') :
    lexicon.Reads s text final ↔ lexicon.Reads s' rest final := by
  constructor
  · intro read
    cases read with
    | done none => cases first.symm.trans none
    | cons again stepped' later =>
      cases first.symm.trans again
      cases stepped.symm.trans stepped'
      exact later
  · exact .cons first stepped

theorem Reads.congr {s final : Place F} {text other : Text}
    (same : lexicon.next s.current.flags text = lexicon.next s.current.flags other)
    (read : lexicon.Reads s other final) : lexicon.Reads s text final := by
  cases read with
  | done none => exact .done (same.trans none)
  | cons first stepped later => exact .cons (same.trans first) stepped later

theorem Reads.eq_of_none {s final : Place F} {text : Text}
    (none : lexicon.next s.current.flags text = .ok none) (read : lexicon.Reads s text final) :
    final = s := by
  cases read with
  | done => rfl
  | cons first => cases none.symm.trans first

/-- A text leads to one place only. -/
theorem Reads.unique {s final final' : Place F} {text : Text} (read : lexicon.Reads s text final)
    (read' : lexicon.Reads s text final') : final = final' := by
  induction read with
  | done none => exact (read'.eq_of_none none).symm
  | cons first stepped _ ih => exact ih ((reads_iff first stepped).mp read')

theorem Writes.unique {text : Text} {meaning meaning' : Meaning}
    (writes : lexicon.Writes text meaning) (writes' : lexicon.Writes text meaning') :
    meaning = meaning' := by
  obtain ⟨last, read, -, rfl⟩ := writes
  obtain ⟨last', read', -, rfl⟩ := writes'
  rw [read.unique read']

theorem Overcloses.not_valid {text : Text} (overcloses : lexicon.Overcloses text) :
    ¬lexicon.Valid text := by
  obtain ⟨inside, after, rfl, -, none⟩ := overcloses
  exact none after

end Lexicon

/-! ### Engines -/

/-- A text that ends, or in which a group ends, at its beginning. -/
def Ending (text : Text) : Prop := text = [] ∨ ∃ more, text = ')' :: more

/-- An engine takes a text for an expression, but it may find that it nests too deep or takes too
much space. -/
def Engine.Recognizes (α : Type) [Engine α] (text : Text) : Prop :=
  (∃ r : α, new text = .ok r) ∨ (new text : Except Fault α) = .error .tooNested ∨
    (new text : Except Fault α) = .error .tooLarge

/-- What is documented of an engine of regular expressions whose signs are those of a lexicon. -/
structure Documented (α : Type) [Engine α] (lexicon : Lexicon F) : Prop where
  /-- At the beginning, a caret stands for the beginning of the text. -/
  caret (rest : Text) :
    lexicon.next lexicon.initial ('^' :: rest) = .ok (some (.piece .textStart, rest))
  /-- Under the flags of the beginning, a dollar sign stands for the end of the text. -/
  dollar (rest : Text) :
    lexicon.next lexicon.initial ('$' :: rest) = .ok (some (.piece .textEnd, rest))
  /-- A group that is not numbered has the flags of the group around it. -/
  group (flags : F) (rest : Text) :
    lexicon.next flags ('(' :: '?' :: ':' :: rest) = .ok (some (.opening flags, rest))
  /-- A parenthesis closes a group. -/
  parenthesis (flags : F) (rest : Text) :
    lexicon.next flags (')' :: rest) = .ok (some (.closing, rest))
  /-- Nothing comes in an empty text. -/
  nil (flags : F) : lexicon.next flags [] = .ok none
  /-- Only a parenthesis closes a group. What is passed over before it is passed over wherever a
  group or the text ends. -/
  closing {flags : F} {text after : Text} :
    lexicon.next flags text = .ok (some (.closing, after)) →
      ∃ blanks, text = blanks ++ ')' :: after ∧
        ∀ other, Ending other → lexicon.next flags (blanks ++ other) = lexicon.next flags other
  /-- A sign within a group is the same where the text ends in place of the group, and whatever
  comes after the group. (The next sign has to stand in the group too: if a brace comes after a word
  boundary, the engine looks into the brace for the name of a boundary.) -/
  enclosed {s s' : Place F} {text inside after : Text} {sign : Sign F} :
    lexicon.next s.current.flags text = .ok (some (sign, inside ++ ')' :: after)) →
      s.step sign = some s' → lexicon.EndsBy s'.current.flags (inside ++ ')' :: after) after →
        ∃ front, text = front ++ (inside ++ ')' :: after) ∧
          ∀ other, Ending other → lexicon.next s.current.flags (front ++ (inside ++ other)) =
            .ok (some (sign, inside ++ other))
  /-- What the engine takes is an expression, and it finds the matches of that expression. -/
  search {text : Text} {r : α} : Engine.new text = .ok r →
    ∃ meaning, lexicon.Writes text meaning ∧
      ∀ haystack, Engine.isMatch r haystack = true ↔ meaning.Occurs haystack
  /-- The engine takes any expression within its limits. (It does not take two groups of one name,
  but a group has no name without a closing angle bracket.) -/
  recognizes {text : Text} : '>' ∉ text → lexicon.Valid text → Engine.Recognizes α text

end TrustSchema.Regex
