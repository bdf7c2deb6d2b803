import TrustSchema.Proofs.Pattern.Literal
import TrustSchema.Proofs.Regex.Anchored
import TrustSchema.Proofs.Regex.Documented

/-!
Patterns of a single component. The text of the test is put between anchors before it is read. So a
component passes if the test matches all of it, as long as the parentheses of the test are its own.
This holds over any engine of regular expressions that does what is documented.
-/

namespace TrustSchema.Pattern

open Regex

/-- The pattern of a single test has one element, which stands once. -/
theorem compile?_single {α : Type} [ComponentLanguage α] {written : Text} {p : Pattern α}
    (closed : '>' ∉ written)
    (compiled : compile? ('<' :: (written ++ ['>'])) = .ok p) :
    ∃ member, componentOf? written = .ok member ∧
      p.nodes = [.one (.single member) (.exactly 1)] := by
  have cut : component (α := α) (written ++ ['>']) = (componentOf? written).map (·, []) := by
    rw [component, Text.cutAt_append closed]
  cases inner : componentOf? (α := α) written with
  | ok member =>
    rw [inner] at cut
    obtain ⟨front, whole, stands⟩ := (component_ok_iff _ _ _).mp cut
    rw [List.append_nil] at whole
    rw [← whole] at stands
    have again := (compile?_ok_iff ('<' :: (written ++ ['>'])) _).mpr
      (.intro false false stands.elements (by simp))
    cases compiled.symm.trans again
    exact ⟨member, rfl, rfl⟩
  | error fault =>
    -- The element cannot be read, and so the pattern cannot.
    have failed (offset : Nat) :
        testFrom (α := α) offset '<' (written ++ ['>']) = .error fault := by
      rw [testFrom, if_pos rfl, cut, inner]
      rfl
    have none : nodesOf? (α := α) ('<' :: (written ++ ['>'])) = .error fault := by
      rw [nodesOf?, nodesFrom, if_neg (by decide), if_neg (by decide)]
      split
      next failed' => cases (failed _).symm.trans failed'; rfl
      next read => cases (failed _).symm.trans read
    have start : startAnchor ('<' :: (written ++ ['>'])) = (false, '<' :: (written ++ ['>'])) :=
      rfl
    have plain : ('<' :: (written ++ ['>'])).getLast? ≠ some '$' := by
      rw [← List.cons_append, List.getLast?_concat]
      decide
    have body : endAnchor ('<' :: (written ++ ['>'])) = (false, '<' :: (written ++ ['>'])) := by
      have sign := endAnchor_append false plain
      rwa [if_neg Bool.false_ne_true, List.append_nil] at sign
    simp only [compile?, start, body, none] at compiled
    cases compiled

/-- The pattern of a single test of some text. The empty text tests nothing. Any other text is an
expression on its own unless it closes a group that it does not open. If it closes one, the engine
does not take it on its own. If it is an expression, the engine takes it within its limits, and a
component passes exactly if the expression matches its text from the first to the last character. -/
theorem compile?_wholeComponent {α F : Type} [Engine α] {lexicon : Lexicon F}
    (documented : Documented α lexicon) {written : Text} {p : Pattern α} (closed : '>' ∉ written)
    (compiled : compile? ('<' :: (written ++ ['>'])) = .ok p) :
    written = [] ∧ p.nodes = [.one (.single .any) (.exactly 1)] ∨
    written ≠ [] ∧ ∃ test, p.nodes = [.one (.single (.expression test)) (.exactly 1)] ∧
      (lexicon.Valid written ↔ ¬lexicon.Overcloses written) ∧
      (lexicon.Overcloses written → ∀ r : α, Engine.new written ≠ .ok r) ∧
      ∀ meaning, lexicon.Writes written meaning → Engine.Recognizes α written ∧
        ∀ c : Component, (ComponentPattern.expression test).accepts c.toUri = true ↔
          meaning.MatchesWhole c.toUri := by
  obtain ⟨member, read, nodes⟩ := compile?_single closed compiled
  rw [componentOf?] at read
  split at read
  next nothing =>
    cases read
    exact .inl ⟨List.isEmpty_iff.mp nothing, nodes⟩
  next some =>
    split at read
    next test parsed =>
      cases read
      have nonempty : written ≠ [] := fun nothing => some (List.isEmpty_iff.mpr nothing)
      refine .inr ⟨nonempty, test, nodes, ?_⟩
      -- A test that closes too much is never an expression, so it is one of the two.
      rcases documented.overcloses_or_matchesWhole parsed with excess | ⟨whole, same, whole_iff⟩
      · have invalid := excess.not_valid
        refine ⟨iff_of_false invalid (not_not_intro excess), fun _ r new => ?_,
          fun meaning writes => absurd ⟨meaning, writes⟩ invalid⟩
        obtain ⟨meaning, writes, -⟩ := documented.search new
        exact invalid ⟨meaning, writes⟩
      · have kept : ¬lexicon.Overcloses written := fun excess => excess.not_valid ⟨whole, same⟩
        refine ⟨iff_of_true ⟨whole, same⟩ kept, fun excess => absurd excess kept,
          fun meaning writes => ⟨documented.recognizes closed ⟨whole, same⟩, fun c => ?_⟩⟩
        rw [writes.unique same]
        exact whole_iff c.toUri
    next => cases read

/-- A test whose parentheses part the anchors around it: the first one holds for what it has before
the bar, and the last one for what comes after that. -/
def partedTest : Text := "a)|(b".toList

theorem compile?_wholeComponent_partedTest :
    ∃ (p : Pattern Regex) (test : Regex), compile? ('<' :: (partedTest ++ ['>'])) = .ok p ∧
      p.nodes = [.one (.single (.expression test)) (.exactly 1)] ∧
      (ComponentPattern.expression test).accepts (Component.mk [0x61, 0x78]).toUri = true ∧
      lexicon.Overcloses partedTest ∧ ¬lexicon.Valid partedTest ∧
      parse? partedTest = .error .unopenedGroup := by
  have closed : '>' ∉ partedTest := by decide
  obtain ⟨test, parsed, found⟩ : ∃ test, parse? (anchored partedTest) = .ok test ∧
      test.search (Component.mk [0x61, 0x78]).toUri = true := Text.ok_of_any (by decide +kernel)
  have unopened : parse? partedTest = .error .unopenedGroup := by decide +kernel
  have stands : Grammar.Member ('<' :: (partedTest ++ ['>'])) (.expression test) :=
    .expression (by decide) closed parsed
  have compiled := (compile?_ok_iff ('<' :: (partedTest ++ ['>'])) _).mpr
    (.intro false false stands.elements (by simp))
  have invalid : ¬lexicon.Valid partedTest := by
    rintro valid
    rcases documented.recognizes closed valid with ⟨r, read⟩ | deep | large
    · cases unopened.symm.trans read
    · cases unopened.symm.trans deep
    · cases unopened.symm.trans large
  refine ⟨_, test, compiled, rfl, found, ?_, invalid, unopened⟩
  rcases compile?_wholeComponent documented closed compiled with ⟨nothing, -⟩ | ⟨-, _, -, kept, -⟩
  · cases nothing
  · exact not_not.mp (mt kept.mpr invalid)

end TrustSchema.Pattern
