import TrustSchema.Proofs.Regex.Syntax

/-!
Tests between anchors. The anchors and the group between them are put around the text of a test
before it is read, so they hold for the whole test only if its parentheses leave the group open. A
test that is an expression on its own does, and matches whole texts. A test that is none closes the
group, and its anchors hold for parts of it.

This is shown of any engine from what is documented of it. A place within the group between the
anchors behaves like a place of an expression on its own, up to the parenthesis that closes the
group. So the reading between the anchors can be cut there.
-/

namespace TrustSchema.Regex

variable {F : Type}

namespace Place

/-- The same place within one group more, around all others. -/
def within (s : Place F) (g : Group F) : Place F :=
  { s with outer := s.outer ++ [g] }

/-- The place after the parenthesis that closes the group around the others. -/
def close (s : Place F) (g : Group F) : Place F :=
  ⟨g.add s.current.contents, []⟩

theorem step_within {s : Place F} {sign : Sign F} (g : Group F)
    (inside : sign = .closing → s.outer ≠ []) :
    (s.within g).step sign = (s.step sign).map (·.within g) := by
  obtain ⟨current, outer⟩ := s
  cases sign with
  | closing =>
    cases outer with
    | nil => exact absurd rfl (inside rfl)
    | cons around outer => rfl
  | repetition bounds =>
    obtain ⟨flags, branches, pieces⟩ := current
    rcases pieces with - | ⟨- | meaning, before⟩ <;> rfl
  | piece | opening | bar | setting => rfl

theorem step_within_closing {s : Place F} (g : Group F) (outermost : s.outer = []) :
    (s.within g).step .closing = some (s.close g) := by
  obtain ⟨current, outer⟩ := s
  subst outermost
  rfl

end Place

namespace Lexicon

variable (lexicon : Lexicon F)

/-- A text leads from one place to another, whether the text or a group ends after it. -/
def Passes (s : Place F) (text : Text) (last : Place F) : Prop :=
  ∀ other, Ending other → ∀ final,
    lexicon.Reads s (text ++ other) final ↔ lexicon.Reads last other final

end Lexicon

namespace Documented

variable {α : Type} [Engine α] {lexicon : Lexicon F} (documented : Documented α lexicon)
include documented

/-- What is passed over before a parenthesis leads nowhere. -/
theorem exists_passes_blanks {s : Place F} {text after : Text}
    (first : lexicon.next s.current.flags text = .ok (some (.closing, after))) :
    ∃ blanks, text = blanks ++ ')' :: after ∧ lexicon.Passes s blanks s := by
  obtain ⟨blanks, whole, same⟩ := documented.closing first
  refine ⟨blanks, whole, fun other ending final => ⟨?_, ?_⟩⟩
  · exact .congr (same other ending).symm
  · exact .congr (same other ending)

/-- A sign leads as far as what is after it. -/
theorem exists_passes_cons {s s' last : Place F} {text inside after : Text} {sign : Sign F}
    (first : lexicon.next s.current.flags text = .ok (some (sign, inside ++ ')' :: after)))
    (stepped : s.step sign = some s') (passes : lexicon.Passes s' inside last)
    (ends : lexicon.EndsBy s'.current.flags (inside ++ ')' :: after) after) :
    ∃ front, text = front ++ ')' :: after ∧ lexicon.Passes s front last := by
  obtain ⟨front, whole, again⟩ := documented.enclosed first stepped ends
  refine ⟨front ++ inside, by rw [whole, List.append_assoc], fun other ending final => ?_⟩
  rw [List.append_assoc, Lexicon.reads_iff (again other ending) stepped]
  exact passes other ending final

/-- A reading that begins within a group and ends outside of it met a parenthesis that closes the
group. The text before that parenthesis is read alike alone. -/
theorem exists_closing {s final : Place F} {g : Group F} {text : Text}
    (read : lexicon.Reads (s.within g) text final) (outside : final.outer = []) :
    ∃ inside after last, text = inside ++ ')' :: after ∧ lexicon.Passes s inside last ∧
      last.outer = [] ∧ lexicon.Reads (last.close g) after final ∧
      lexicon.EndsBy s.current.flags text after := by
  generalize start : s.within g = begun at read
  induction read generalizing s with
  | done none =>
    -- The group is still open where the text ends.
    subst start
    cases (List.append_eq_nil_iff.mp outside).2
  | @cons begun text sign rest next final first stepped later ih =>
    subst start
    have first' : lexicon.next s.current.flags text = .ok (some (sign, rest)) := first
    by_cases closes : sign = .closing ∧ s.outer = []
    · obtain ⟨rfl, outermost⟩ := closes
      obtain ⟨blanks, whole, passes⟩ := documented.exists_passes_blanks first'
      cases (Place.step_within_closing g outermost).symm.trans stepped
      exact ⟨blanks, rest, s, whole, passes, outermost, later, _, _, first', List.suffix_rfl⟩
    · -- Any other sign does the same within the group as alone.
      rw [Place.step_within g fun closing => not_and.mp closes closing] at stepped
      obtain ⟨s', stepped', rfl⟩ := Option.map_eq_some_iff.mp stepped
      obtain ⟨inside, after, last, rfl, passes, outermost, closed, ends⟩ := ih outside rfl
      obtain ⟨front, whole, passes'⟩ :=
        documented.exists_passes_cons first' stepped' passes ends
      exact ⟨front, after, last, whole, passes', outermost, closed, _, _, first',
        (List.suffix_cons ')' after).trans (List.suffix_append inside _)⟩

section

variable {inside : Text} {last : Place F}
  (passes : lexicon.Passes (.start lexicon.initial) inside last) (outermost : last.outer = [])
include passes outermost

/-- A text that leaves no group open is an expression on its own. -/
theorem writes_of_passes : lexicon.Writes inside last.current.contents := by
  have alone := (passes [] (.inl rfl) last).mpr (.done (documented.nil _))
  rw [List.append_nil] at alone
  exact ⟨last, alone, outermost, rfl⟩

/-- A parenthesis after such a text closes a group that is not there. -/
theorem overcloses_of_passes (after : Text) : lexicon.Overcloses (inside ++ ')' :: after) := by
  refine ⟨inside, after, rfl, ⟨_, documented.writes_of_passes passes outermost⟩, ?_⟩
  rintro other ⟨meaning, final, read, -, -⟩
  cases (passes _ (.inr ⟨other, rfl⟩) final).mp read with
  | done none => cases (documented.parenthesis _ other).symm.trans none
  | cons first stepped =>
    cases (documented.parenthesis _ other).symm.trans first
    rw [Place.step, outermost] at stepped
    cases stepped

end

/-- What stands before the group between the anchors. -/
def beforeGroup (flags : F) : Group F :=
  (Group.start flags).add Meaning.textStart

/-- A test that is read between anchors is read within the group. -/
theorem reads_anchored {written : Text} {final : Place F}
    (read : lexicon.Reads (.start lexicon.initial) (anchored written) final) :
    lexicon.Reads ((Place.start lexicon.initial).within (beforeGroup lexicon.initial))
      (written ++ [')', '$']) final := by
  rw [anchored, List.append_assoc] at read
  have afterCaret := (Lexicon.reads_iff (documented.caret _) rfl).mp read
  exact (Lexicon.reads_iff (documented.group _ _) rfl).mp afterCaret

omit documented in
theorem occurs_between (m : Meaning) (text : Text) :
    (Meaning.inTurn [.textStart, m, .textEnd]).Occurs text ↔ m.MatchesWhole text := by
  constructor
  · rintro ⟨_, -, _, _, ⟨rfl, rfl⟩, _, inner, _, ⟨rfl, rfl⟩, rfl⟩
    exact inner
  · intro whole
    exact ⟨0, Nat.zero_le _, text.length, 0, ⟨rfl, rfl⟩, text.length, whole, text.length,
      ⟨rfl, rfl⟩, rfl⟩

/-- If the parenthesis before the last anchor closes the group, the anchors hold for all of it. -/
theorem occurs_of_close {last final : Place F}
    (read : lexicon.Reads (last.close (beforeGroup lexicon.initial)) ['$'] final) (text : Text) :
    final.current.contents.Occurs text ↔ last.current.contents.MatchesWhole text := by
  have ended := (Lexicon.reads_iff (documented.dollar []) rfl).mp read
  rw [ended.eq_of_none (documented.nil _), ← occurs_between]
  -- There is one alternative, which has the group and the anchors as its pieces.
  have single (m : Meaning) : Meaning.Occurs (.anyOf [m]) text ↔ m.Occurs text := by
    simp only [Meaning.Occurs, Meaning.anyOf, List.mem_singleton, exists_eq_left]
  exact single _

omit documented in
/-- The parenthesis before the last anchor, or one that is earlier. -/
theorem parted_cases {written inside after : Text}
    (parted : written ++ [')', '$'] = inside ++ ')' :: after) :
    inside = written ∧ after = ['$'] ∨ ∃ more, written = inside ++ ')' :: more := by
  rcases List.append_eq_append_iff.mp parted with ⟨more, rfl, rest⟩ | ⟨more, rfl, rest⟩
  · cases more with
    | nil => exact .inl ⟨List.append_nil _, (List.cons.inj rest).2.symm⟩
    | cons c more =>
      -- There is no parenthesis after that one.
      rw [List.cons_append, List.cons.injEq] at rest
      have member : ')' ∈ ['$'] := by
        rw [rest.2]
        exact List.mem_append_right more List.mem_cons_self
      exact absurd member (by decide)
  · cases more with
    | nil => exact .inl ⟨(List.append_nil _).symm, (List.cons.inj rest).2⟩
    | cons c more =>
      rw [List.cons_append, List.cons.injEq] at rest
      exact .inr ⟨more, by rw [rest.1]⟩

/-- A test between anchors either closes the group between them, or it is an expression on its own,
and between the anchors it matches the texts that it matches from end to end. -/
theorem overcloses_or_matchesWhole {written : Text} {r : α}
    (read : Engine.new (anchored written) = .ok r) :
    lexicon.Overcloses written ∨ ∃ meaning, lexicon.Writes written meaning ∧
      ∀ text, Engine.isMatch r text = true ↔ meaning.MatchesWhole text := by
  obtain ⟨_, ⟨final, signs, outside, rfl⟩, found⟩ := documented.search read
  obtain ⟨inside, after, last, parted, passes, outermost, later, -⟩ :=
    documented.exists_closing (documented.reads_anchored signs) outside
  -- The group is closed by the last parenthesis or by one of the test.
  rcases parted_cases parted with ⟨rfl, rfl⟩ | ⟨more, rfl⟩
  · refine .inr ⟨_, documented.writes_of_passes passes outermost, fun text => ?_⟩
    rw [found, documented.occurs_of_close later]
  · exact .inl (documented.overcloses_of_passes passes outermost more)

end Documented

end TrustSchema.Regex
