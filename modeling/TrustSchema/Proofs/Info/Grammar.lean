import TrustSchema.Info.Tree

/-!
The grammar of configuration texts over their tokens. A section is any sequence of line ends and
entries; an entry is a key, its value if a word stands right after the key, and a block if one opens
before anything else but line ends. The builder, which sees one token at a time, accepts exactly the
sections at depth zero.
-/

namespace TrustSchema.Info

/-- The words of an entry: its key, and its value if it has one. -/
def words (key : Text) (value : Option Text) : List Token :=
  .word key :: value.toList.map .word

def BeginsWithWord (tokens : List Token) : Prop :=
  ∃ text rest, tokens = .word text :: rest

def EndsWithWord (tokens : List Token) : Prop :=
  ∃ front text, tokens = front ++ [.word text]

mutual

/-- The tokens of an entry inside `depth` blocks. -/
inductive EntryTokens : Nat → List Token → Entry → Prop
  | plain {depth : Nat} (key : Text) (value : Option Text) :
      EntryTokens depth (words key value) (.mk key (value.getD []) [])
  | block {depth : Nat} {inside : List Token} {entries : List Entry} (key : Text)
      (value : Option Text) (breaks : Nat) :
      depth < maxDepth → SectionTokens (depth + 1) inside entries →
      EntryTokens depth
        (words key value ++ (List.replicate breaks .lineEnd ++
          .blockOpen :: (inside ++ [.blockClose])))
        (.mk key (value.getD []) entries)

/-- The tokens of a sequence of entries inside `depth` blocks. A word after a key or a value is
never the key of the next entry. -/
inductive SectionTokens : Nat → List Token → List Entry → Prop
  | nil {depth : Nat} : SectionTokens depth [] []
  | lineEnd {depth : Nat} {rest : List Token} {entries : List Entry} :
      SectionTokens depth rest entries → SectionTokens depth (.lineEnd :: rest) entries
  | entry {depth : Nat} {front rest : List Token} {e : Entry} {entries : List Entry} :
      EntryTokens depth front e → SectionTokens depth rest entries →
      (EndsWithWord front → ¬BeginsWithWord rest) →
      SectionTokens depth (front ++ rest) (e :: entries)

end

/-! ### Words -/

theorem beginsWithWord_cons (t : Token) (rest : List Token) :
    BeginsWithWord (t :: rest) ↔ ∃ text, t = .word text := by
  constructor
  · rintro ⟨text, rest', same⟩
    exact ⟨text, (List.cons.inj same).1⟩
  · rintro ⟨text, rfl⟩
    exact ⟨text, rest, rfl⟩

theorem not_beginsWithWord_nil : ¬BeginsWithWord [] := by
  rintro ⟨text, rest, same⟩
  cases same

theorem not_beginsWithWord_lineEnds {breaks : Nat} {rest : List Token}
    (apart : breaks ≠ 0 ∨ ¬BeginsWithWord rest) :
    ¬BeginsWithWord (List.replicate breaks .lineEnd ++ rest) := by
  cases breaks with
  | zero => exact apart.resolve_left (fun absurd => absurd rfl)
  | succ breaks =>
    rw [List.replicate_succ, List.cons_append, beginsWithWord_cons]
    rintro ⟨text, same⟩
    cases same

theorem endsWithWord_words (key : Text) (value : Option Text) : EndsWithWord (words key value) := by
  cases value with
  | none => exact ⟨[], key, rfl⟩
  | some text => exact ⟨[.word key], text, rfl⟩

theorem not_endsWithWord_blockClose (front : List Token) :
    ¬EndsWithWord (front ++ [.blockClose]) := by
  rintro ⟨front', text, same⟩
  have last := (List.append_inj' same rfl).2
  cases last

/-- The words of an entry end where no word follows. -/
theorem words_append_inj {key key' : Text} {value value' : Option Text} {rest rest' : List Token}
    (proper : value = none → ¬BeginsWithWord rest) (ends : ¬BeginsWithWord rest')
    (same : words key value ++ rest = words key' value' ++ rest') :
    key = key' ∧ value = value' ∧ rest = rest' := by
  obtain ⟨head, tail⟩ := List.cons.inj same
  obtain rfl := Token.word.inj head
  -- The two could only differ where one takes as its value what the other has after it.
  cases value with
  | none =>
    cases value' with
    | none => exact ⟨rfl, rfl, tail⟩
    | some text =>
      obtain rfl : rest = .word text :: rest' := tail
      exact absurd ⟨text, rest', rfl⟩ (proper rfl)
  | some text =>
    cases value' with
    | none => exact absurd ⟨text, rest, tail.symm⟩ ends
    | some text' =>
      obtain ⟨second, remainder⟩ := List.cons.inj tail
      exact ⟨rfl, congrArg some (Token.word.inj second), remainder⟩

/-! ### Longer sections -/

theorem SectionTokens.lineEnds {depth : Nat} {rest : List Token} {entries : List Entry}
    (written : SectionTokens depth rest entries) (breaks : Nat) :
    SectionTokens depth (List.replicate breaks .lineEnd ++ rest) entries := by
  induction breaks with
  | zero => exact written
  | succ breaks ih => exact .lineEnd ih

/-- A block ends an entry whatever comes next. -/
theorem SectionTokens.block {depth : Nat} {inside rest : List Token} {inner entries : List Entry}
    (key : Text) (value : Option Text) (breaks : Nat) (shallow : depth < maxDepth)
    (body : SectionTokens (depth + 1) inside inner) (written : SectionTokens depth rest entries) :
    SectionTokens depth
      (words key value ++ (List.replicate breaks .lineEnd ++
        .blockOpen :: (inside ++ .blockClose :: rest)))
      (.mk key (value.getD []) inner :: entries) := by
  have closed := SectionTokens.entry (.block key value breaks shallow body) written
  simp only [List.append_assoc, List.cons_append, List.nil_append] at closed
  apply closed
  intro ended
  simp only [← List.append_assoc, ← List.cons_append] at ended
  exact absurd ended (not_endsWithWord_blockClose _)

/-! ### What a section begins with -/

theorem exists_eq_cons_of_entry {depth : Nat} {front : List Token} {e : Entry}
    (written : EntryTokens depth front e) : ∃ key rest, front = .word key :: rest := by
  cases written with
  | plain key value => exact ⟨key, _, rfl⟩
  | block key value breaks _ _ => exact ⟨key, _, rfl⟩

theorem section_nil_iff (depth : Nat) (entries : List Entry) :
    SectionTokens depth [] entries ↔ entries = [] := by
  constructor
  -- The tokens of a derivation end in a concatenation, so that they are kept behind an equation.
  · generalize none : [] = tokens
    intro written
    cases written with
    | nil => rfl
    | lineEnd => cases none
    | entry first _ _ =>
      obtain ⟨key, rest, rfl⟩ := exists_eq_cons_of_entry first
      cases none
  · rintro rfl
    exact .nil

theorem section_lineEnd_iff (depth : Nat) (rest : List Token) (entries : List Entry) :
    SectionTokens depth (.lineEnd :: rest) entries ↔ SectionTokens depth rest entries := by
  constructor
  · generalize whole : Token.lineEnd :: rest = tokens
    intro written
    cases written with
    | nil => cases whole
    | lineEnd written =>
      cases whole
      exact written
    | entry first _ _ =>
      obtain ⟨key, more, rfl⟩ := exists_eq_cons_of_entry first
      cases whole
  · exact .lineEnd

theorem not_section_brace {depth : Nat} {t : Token} {rest : List Token} {entries : List Entry}
    (brace : t = .blockOpen ∨ t = .blockClose) : ¬SectionTokens depth (t :: rest) entries := by
  generalize whole : t :: rest = tokens
  intro written
  cases written with
  | nil => cases whole
  | lineEnd =>
    cases whole
    rcases brace with same | same <;> cases same
  | entry first _ _ =>
    obtain ⟨key, more, rfl⟩ := exists_eq_cons_of_entry first
    cases whole
    rcases brace with same | same <;> cases same

/-- A block opens after line ends, and what follows it is a section again. -/
def BlockFollows (depth : Nat) (tokens : List Token) (inner later : List Entry) : Prop :=
  ∃ breaks inside rest,
    tokens = List.replicate breaks .lineEnd ++ .blockOpen :: (inside ++ .blockClose :: rest) ∧
    depth < maxDepth ∧ SectionTokens (depth + 1) inside inner ∧ SectionTokens depth rest later

theorem blockFollows_lineEnd_iff (depth : Nat) (rest : List Token) (inner later : List Entry) :
    BlockFollows depth (.lineEnd :: rest) inner later ↔ BlockFollows depth rest inner later := by
  constructor
  · rintro ⟨breaks, inside, after, whole, written⟩
    cases breaks with
    | zero => cases whole
    | succ breaks => exact ⟨breaks, inside, after, (List.cons.inj whole).2, written⟩
  · rintro ⟨breaks, inside, after, rfl, written⟩
    exact ⟨breaks + 1, inside, after, rfl, written⟩

theorem blockFollows_blockOpen_iff (depth : Nat) (rest : List Token) (inner later : List Entry) :
    BlockFollows depth (.blockOpen :: rest) inner later ↔
      ∃ inside after, rest = inside ++ .blockClose :: after ∧ depth < maxDepth ∧
        SectionTokens (depth + 1) inside inner ∧ SectionTokens depth after later := by
  constructor
  · rintro ⟨breaks, inside, after, whole, written⟩
    cases breaks with
    | zero => exact ⟨inside, after, (List.cons.inj whole).2, written⟩
    | succ breaks => cases whole
  · rintro ⟨inside, after, rfl, written⟩
    exact ⟨0, inside, after, rfl, written⟩

theorem not_blockFollows_nil {depth : Nat} {inner later : List Entry} :
    ¬BlockFollows depth [] inner later := by
  rintro ⟨breaks, inside, after, whole, -⟩
  cases breaks <;> cases whole

theorem not_blockFollows_cons {depth : Nat} {t : Token} {rest : List Token}
    {inner later : List Entry} (notEnd : t ≠ .lineEnd) (notOpen : t ≠ .blockOpen) :
    ¬BlockFollows depth (t :: rest) inner later := by
  rintro ⟨breaks, inside, after, whole, -⟩
  cases breaks with
  | zero => exact notOpen (List.cons.inj whole).1
  | succ breaks => exact notEnd (List.cons.inj whole).1

/-- After the words of an entry its block follows, or the entry is over. -/
theorem section_words_iff {depth : Nat} {key : Text} {value : Option Text} {rest : List Token}
    (proper : value = none → ¬BeginsWithWord rest) (entries : List Entry) :
    SectionTokens depth (words key value ++ rest) entries ↔
      ¬BeginsWithWord rest ∧ ∃ inner later, entries = .mk key (value.getD []) inner :: later ∧
        (inner = [] ∧ SectionTokens depth rest later ∨ BlockFollows depth rest inner later) := by
  constructor
  · generalize whole : words key value ++ rest = tokens
    intro written
    cases written with
    | nil => cases whole
    | lineEnd => cases whole
    | @entry _ _ after _ _ first later follows =>
      cases first with
      | plain key' value' =>
        have ends := follows (endsWithWord_words key' value')
        obtain ⟨rfl, rfl, rfl⟩ := words_append_inj proper ends whole
        exact ⟨ends, [], _, rfl, .inl ⟨rfl, later⟩⟩
      | @block _ inside inner key' value' breaks shallow body =>
        simp only [List.append_assoc, List.cons_append, List.nil_append] at whole
        have ends : ¬BeginsWithWord (List.replicate breaks .lineEnd ++
            .blockOpen :: (inside ++ .blockClose :: after)) := by
          apply not_beginsWithWord_lineEnds
          simp [beginsWithWord_cons]
        obtain ⟨rfl, rfl, rfl⟩ := words_append_inj proper ends whole
        exact ⟨ends, _, _, rfl, .inr ⟨breaks, inside, _, rfl, shallow, body, later⟩⟩
  · rintro ⟨ends, inner, later, rfl, written | follows⟩
    · obtain ⟨rfl, written⟩ := written
      exact .entry (.plain key value) written fun _ => ends
    · obtain ⟨breaks, inside, after, rfl, shallow, body, written⟩ := follows
      exact .block key value breaks shallow body written

end TrustSchema.Info
