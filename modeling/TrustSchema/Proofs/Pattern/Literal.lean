import TrustSchema.Proofs.Pattern.Acceptance
import TrustSchema.Proofs.Pattern.Words

/-!
Tests that are passed by one text only. A text writes such a test for itself, with a backslash
before its periods and plus signs. One after another, such tests make the elements of a pattern that
has a single word.
-/

namespace TrustSchema.Pattern

open Grammar

/-- The test that a text writes for itself. -/
def literalTest (text : Text) : Text :=
  text.flatMap fun c => if c = '.' ∨ c = '+' then ['\\', c] else [c]

/-- The elements that texts write for themselves. -/
def literalElements (texts : List Text) : Text :=
  texts.flatMap fun text => '<' :: (literalTest text ++ ['>'])

theorem literalTest_ne_nil {text : Text} (nonempty : text ≠ []) : literalTest text ≠ [] := by
  cases text with
  | nil => exact absurd rfl nonempty
  | cons c rest =>
    rw [literalTest, List.flatMap_cons]
    split <;> simp

theorem not_mem_literalTest {text : Text} (absent : '>' ∉ text) : '>' ∉ literalTest text := by
  intro member
  obtain ⟨c, inside, written⟩ := List.mem_flatMap.mp member
  have same : '>' = c := by
    split at written <;> simpa using written
  exact absent (same ▸ inside)

variable (α : Type) [ComponentLanguage α]

/-- The language takes what a text writes for itself as a test that no other text passes. -/
def ReadsLiterally (text : Text) : Prop :=
  ∃ test : α, ComponentLanguage.compile (literalTest text) = .ok test ∧
    ∀ other, ComponentLanguage.accepts test other = true ↔ other = text

variable {α}

/-- A member that stands alone, once. -/
theorem Grammar.Member.elements {text : Text} {member : ComponentPattern α}
    (written : Member text member) : Elements text [.one (.single member) (.exactly 1)] := by
  have element : Element (text ++ []) (.one (.single member) (.exactly 1)) :=
    .one (.single written) .once
  have elements := Elements.cons element .nil
  rwa [List.append_nil, List.append_nil] at elements

/-- The elements that texts write for themselves have these texts as their only word. -/
theorem exists_literalElements {texts : List Text}
    (literal : ∀ text ∈ texts, text ≠ [] ∧ '>' ∉ text ∧ ReadsLiterally α text) :
    ∃ nodes : List (Node α), Elements (literalElements texts) nodes ∧
      ∀ word, Sequence nodes word ↔ word = texts := by
  induction texts with
  | nil => exact ⟨[], .nil, sequence_nil_iff⟩
  | cons text texts ih =>
    obtain ⟨nonempty, absent, test, compiled, only⟩ := literal text List.mem_cons_self
    obtain ⟨nodes, written, words⟩ :=
      ih fun other member => literal other (List.mem_cons_of_mem _ member)
    have member : Member ('<' :: (literalTest text ++ ['>'])) (.expression test) :=
      .expression (literalTest_ne_nil nonempty) (not_mem_literalTest absent) compiled
    refine ⟨.one (.single (.expression test)) (.exactly 1) :: nodes, ?_, fun word => ?_⟩
    · exact member.elements.append written
    · have admits (other : Text) :
          (ComponentTest.single (.expression test)).Admits other ↔ other = text := by
        rw [← ComponentTest.accepts_iff]
        exact only other
      rw [← List.singleton_append, sequence_append_iff]
      simp only [sequence_once_iff, admits, words]
      constructor
      · rintro ⟨_, _, rfl, ⟨_, rfl, rfl⟩, rfl⟩
        rfl
      · rintro rfl
        exact ⟨[text], texts, rfl, ⟨text, rfl, rfl⟩, rfl⟩

end TrustSchema.Pattern
