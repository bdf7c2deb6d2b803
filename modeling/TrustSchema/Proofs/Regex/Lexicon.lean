import TrustSchema.Proofs.Regex.Brackets
import TrustSchema.Proofs.Regex.Meaning

/-!
The signs of the tool's own engine. Its tokens look at one character after them, which they do not
tell from the end of the text if it closes a group. Only a word boundary looks further, for the name
of a boundary between braces.
-/

namespace TrustSchema.Regex

theorem skipBlanks_of_solid {ignoreSpace : Bool} {c : Char} (solid : Text.isBlank c = false)
    (plain : c ≠ '#') (rest : Text) : skipBlanks ignoreSpace (c :: rest) = c :: rest := by
  cases ignoreSpace with
  | true => simp [skipBlanks, skipBlanks.skip, solid, plain]
  | false => rfl

/-- A text that is passed over is passed over from its beginning on, and a parenthesis after it may
be a part of a comment. -/
theorem skipBlanks_of_begins {ignoreSpace : Bool} {blanks front : Text}
    (skipped : skipBlanks ignoreSpace blanks = []) (begins : front <+: blanks ++ [')']) :
    skipBlanks ignoreSpace front = [] ∨ skipBlanks ignoreSpace front = [')'] := by
  cases ignoreSpace with
  | false =>
    obtain rfl : blanks = [] := skipped
    rcases List.prefix_cons_iff.mp begins with rfl | ⟨rest, rfl, inner⟩
    · exact .inl rfl
    · rw [List.prefix_nil.mp inner]
      exact .inr rfl
  | true =>
    have inner : ∀ inComment, skipBlanks.skip inComment blanks = [] →
        skipBlanks.skip inComment front = [] ∨ skipBlanks.skip inComment front = [')'] := by
      clear skipped
      induction blanks generalizing front with
      | nil =>
        intro inComment _
        rcases List.prefix_cons_iff.mp begins with rfl | ⟨rest, rfl, inner⟩
        · exact .inl rfl
        · rw [List.prefix_nil.mp inner]
          cases inComment with
          | true => exact .inl rfl
          | false => exact .inr rfl
      | cons c blanks ih =>
        intro inComment skipped
        rcases List.prefix_cons_iff.mp begins with rfl | ⟨rest, rfl, inner⟩
        · exact .inl rfl
        · rw [skipBlanks.skip] at skipped ⊢
          split at skipped
          next comment => rw [if_pos comment]; exact ih inner _ skipped
          next plain =>
            rw [if_neg plain]
            split at skipped
            next blank => rw [if_pos blank]; exact ih inner _ skipped
            next solid =>
              rw [if_neg solid]
              split at skipped
              next sharp => rw [if_pos sharp]; exact ih inner _ skipped
              next => cases skipped
    exact inner false skipped

theorem countedBounds_of_skipBlanks {ignoreSpace : Bool} {text : Text}
    (skipped : skipBlanks ignoreSpace text = [] ∨ skipBlanks ignoreSpace text = [')']) :
    countedBounds ignoreSpace text = .error .unclosedCount := by
  have digits : takeWhileSpaced ignoreSpace Char.isDigit [')'] = ([], [')']) :=
    takeWhileSpaced_cons (skipBlanks_of_solid (by decide) (by decide) [])
  have counted : count ignoreSpace (skipBlanks ignoreSpace text) =
      .ok (none, skipBlanks ignoreSpace text) := by
    rcases skipped with same | same
    · rw [same, count_nil]
    · have solid : [')'].dropWhile Text.isBlank = [')'] := rfl
      rw [same]
      simp only [count, solid, digits]
      rfl
  rw [countedBounds, counted]
  rcases skipped with same | same
  · rw [same]
  · rw [same]
    rfl

theorem alike_of_ending {other rest : Text} (ending : Ending other) :
    Alike other (')' :: rest) := by
  rcases ending with rfl | ⟨more, rfl⟩
  · exact .inr ⟨rfl, rfl⟩
  · exact .inl rfl

theorem skipBlanks_of_ending {other : Text} (ending : Ending other) (ignoreSpace : Bool) :
    skipBlanks ignoreSpace other = other := by
  rcases ending with rfl | ⟨more, rfl⟩
  · exact skipBlanks_nil ignoreSpace
  · exact skipBlanks_of_solid (by decide) (by decide) more

/-! ### Signs -/

/-- The sign that a token is under some flags. -/
def Token.sign (flags : Flags) : Token → Except Fault (Sign Flags)
  | .literal c asOctet =>
    (flags.literal c asOctet).map fun members => .piece members.meaning
  | .anyCharacter => flags.anyCharacter.map fun members => .piece members.meaning
  | .charClass members _ => (members.members flags).map fun members => .piece members.meaning
  | .condition kind => .ok (.piece kind.meaning)
  | .lineStart => .ok (.piece flags.lineStart.meaning)
  | .lineEnd => .ok (.piece flags.lineEnd.meaning)
  | .groupOpen _ change => .ok (.opening (flags.changed change))
  | .groupClose => .ok .closing
  | .flags change => .ok (.setting (flags.changed change))
  | .bar => .ok .bar
  | .repetition bounds _ => .ok (.repetition bounds)

theorem eq_groupClose_of_sign {flags : Flags} {t : Token} (signed : t.sign flags = .ok .closing) :
    t = .groupClose := by
  cases t with
  | groupClose => rfl
  | literal | anyCharacter | charClass =>
    change Except.map _ _ = _ at signed
    obtain ⟨_, -, same⟩ := Text.ok_of_map signed
    cases same
  | condition | lineStart | lineEnd | groupOpen | flags | bar | repetition => cases signed

variable [PropertyTable]

/-- Only a closing parenthesis closes a group. -/
theorem eq_of_tokenFrom_groupClose {ignoreSpace : Bool} {c : Char} {rest after : Text}
    (read : tokenFrom ignoreSpace c rest = .ok (.groupClose, after)) : c = ')' ∧ after = rest := by
  unfold tokenFrom at read
  split at read
  case h_1 =>
    obtain ⟨⟨e, later⟩, -, same⟩ := Text.ok_of_map read
    cases e with
    | _ => cases same
  case h_2 | h_3 =>
    obtain ⟨_, -, same⟩ := Text.ok_of_map read
    cases same
  case h_4 =>
    unfold groupStart at read
    split at read
    all_goals try cases read
    split at read
    next => cases read
    next =>
      split at read
      next => cases read
      next => split at read <;> cases read
  case h_5 => cases read; exact ⟨rfl, rfl⟩
  all_goals cases read

/-- A token takes a front of the text, and takes it again if from a later closing parenthesis on the
text is another one that begins with it or has ended. For a word boundary before a brace, more than
blanks has to stand between the brace and the parenthesis. -/
def ReadsAlone (ignoreSpace : Bool) (c : Char) (rest : Text) (t : Token) (after : Text) : Prop :=
  ∃ taken, rest = taken ++ after ∧ ∀ front closed other, after = front ++ closed →
    closed.head? = some ')' → Alike other closed →
    (t = .condition .wordBoundary → ∀ inner, front = '\x7b' :: inner →
      skipBlanks ignoreSpace inner ≠ []) →
    tokenFrom ignoreSpace c (taken ++ (front ++ other)) = .ok (t, front ++ other)

theorem Takes.readsAlone {ignoreSpace : Bool} {c : Char} {rest after : Text} {t : Token}
    (takes : Takes (tokenFrom ignoreSpace c) (fun u => .ok (t, u)) rest after) :
    ReadsAlone ignoreSpace c rest t after := by
  obtain ⟨taken, whole, same⟩ := takes
  refine ⟨taken, whole, fun front closed other left _ alike _ => same _ ?_⟩
  rw [left]
  exact alike.append front

/-- Every token is read alike at the end of a text and in a group. -/
theorem readsAlone_tokenFrom {ignoreSpace : Bool} {c : Char} {rest after : Text} {t : Token}
    (read : tokenFrom ignoreSpace c rest = .ok (t, after)) :
    ReadsAlone ignoreSpace c rest t after := by
  have blanks := takes_skipBlanks ignoreSpace rest
  unfold tokenFrom at read
  split at read
  case h_1 =>
    obtain ⟨⟨e, later⟩, inner, same⟩ := Text.ok_of_map read
    cases same
    -- A word boundary without its braces looks ahead for them; no other escape looks ahead.
    rcases takesAlone_escape inner with ⟨taken, rfl, again⟩ | ⟨rfl, rfl, bare⟩
    · refine Takes.readsAlone ⟨taken, rfl, fun other _ => ?_⟩
      exact congrArg (Except.map _) (again other)
    · refine ⟨['b'], rfl, fun front closed other left closes alike brace => ?_⟩
      rw [left] at bare
      exact congrArg (Except.map _) (boundaryEscape_bare bare alike closes (brace rfl))
  case h_2 =>
    obtain ⟨⟨found, later⟩, inner, same⟩ := Text.ok_of_map read
    cases same
    obtain ⟨taken, rfl, again⟩ := takesAlone_bracket inner
    refine Takes.readsAlone ⟨taken, rfl, fun other _ => ?_⟩
    exact congrArg (Except.map _) (again other)
  case h_3 =>
    obtain ⟨⟨bounds, later⟩, inner, same⟩ := Text.ok_of_map read
    have counted : Takes
        (fun u => (countedBounds ignoreSpace u).map (Prod.map id (skipBlanks ignoreSpace)))
        (fun u => .ok (bounds, u)) rest (skipBlanks ignoreSpace later) :=
      (takesAlone_countedBounds inner).takes.trans (takes_skipBlanks ignoreSpace later)
        fun u m o _ found skipped => by
          simp only [found, Except.map, Prod.map, skipped]
          rfl
    have sign := takes_repetitionToken same
    refine Takes.readsAlone (counted.trans sign fun u m o _ found marked => ?_)
    obtain ⟨⟨bounds', later'⟩, read', same'⟩ := Text.ok_of_map found
    cases same'
    change (countedBounds ignoreSpace u).map _ = _
    rw [read']
    exact congrArg Except.ok marked
  case h_4 =>
    exact Takes.readsAlone (blanks.trans (takes_groupStart read) fun t m o _ skipped found => by
      change groupStart (skipBlanks ignoreSpace t) = _
      rw [skipped]
      exact found)
  case h_10 | h_11 | h_12 =>
    obtain ⟨taken, whole, same⟩ := takes_repetitionToken (Except.ok.inj read)
    exact Takes.readsAlone ⟨taken, whole, fun other alike => congrArg Except.ok (same other alike)⟩
  case h_13 =>
    cases read
    refine Takes.readsAlone ⟨[], rfl, fun other _ => ?_⟩
    unfold tokenFrom
    split <;> first | rfl | contradiction
  all_goals
    cases read
    exact Takes.readsAlone ⟨[], rfl, fun other _ => rfl⟩

/-- The signs of the tool's engine. -/
def lexicon : Lexicon Flags where
  initial := .initial
  next flags text :=
    match skipBlanks flags.ignoreSpace text with
    | [] => .ok none
    | c :: rest =>
      (tokenFrom flags.ignoreSpace c rest).bind fun read =>
        (read.1.sign flags).map fun sign => some (sign, read.2)

theorem next_of_nil {flags : Flags} {text : Text}
    (skipped : skipBlanks flags.ignoreSpace text = []) : lexicon.next flags text = .ok none := by
  simp only [lexicon, skipped]

theorem next_of_cons {flags : Flags} {text rest after : Text} {c : Char} {t : Token}
    (skipped : skipBlanks flags.ignoreSpace text = c :: rest)
    (read : tokenFrom flags.ignoreSpace c rest = .ok (t, after)) :
    lexicon.next flags text = (t.sign flags).map fun sign => some (sign, after) := by
  simp only [lexicon, skipped, read]
  rfl

theorem next_solid {flags : Flags} {rest after : Text} {c : Char} {t : Token}
    (solid : Text.isBlank c = false) (plain : c ≠ '#')
    (read : tokenFrom flags.ignoreSpace c rest = .ok (t, after)) :
    lexicon.next flags (c :: rest) = (t.sign flags).map fun sign => some (sign, after) :=
  next_of_cons (skipBlanks_of_solid solid plain rest) read

/-- Where a sign comes from. -/
theorem exists_token {flags : Flags} {text after : Text} {sign : Sign Flags}
    (first : lexicon.next flags text = .ok (some (sign, after))) :
    ∃ c rest t, skipBlanks flags.ignoreSpace text = c :: rest ∧
      tokenFrom flags.ignoreSpace c rest = .ok (t, after) ∧ t.sign flags = .ok sign := by
  cases skipped : skipBlanks flags.ignoreSpace text with
  | nil => cases (next_of_nil skipped).symm.trans first
  | cons c rest =>
    simp only [lexicon, skipped] at first
    obtain ⟨⟨t, later⟩, read, signed⟩ := Text.ok_of_bind first
    obtain ⟨_, known, same⟩ := Text.ok_of_map signed
    cases same
    exact ⟨c, rest, t, rfl, read, known⟩

/-- A counted repetition within a group has more than blanks in its braces. -/
theorem skipBlanks_ne_nil_of_endsBy {flags : Flags} {inner after : Text}
    (ends : lexicon.EndsBy flags ('\x7b' :: (inner ++ ')' :: after)) after) :
    skipBlanks flags.ignoreSpace inner ≠ [] := by
  intro blank
  obtain ⟨sign, rest, first, last⟩ := ends
  obtain ⟨c, text, t, skipped, read, -⟩ := exists_token first
  cases (skipBlanks_of_solid (by decide) (by decide) _).symm.trans skipped
  obtain ⟨⟨bounds, middle⟩, counted, marked⟩ := Text.ok_of_map read
  obtain ⟨taken, whole, again⟩ := takesAlone_countedBounds counted
  -- The repetition ends by the parenthesis, so nothing after that belongs to it.
  have size : after.length ≤ middle.length :=
    Nat.le_trans last.length_le
      (Nat.le_trans (repetitionToken_length marked) (skipBlanks_length flags.ignoreSpace middle))
  have front : taken <+: inner ++ ')' :: after := whole ▸ List.prefix_append taken middle
  have closed : inner ++ [')'] <+: inner ++ ')' :: after := ⟨after, by simp⟩
  have begins : taken <+: inner ++ [')'] := by
    refine List.prefix_of_prefix_length_le front closed ?_
    have sizes := congrArg List.length whole
    simp only [List.length_append, List.length_cons, List.length_nil] at sizes ⊢
    omega
  have failed := countedBounds_of_skipBlanks (skipBlanks_of_begins blank begins)
  have alone := again []
  rw [List.append_nil, failed] at alone
  cases alone

end TrustSchema.Regex
