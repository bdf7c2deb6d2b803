import TrustSchema.Proofs.Filter.Decision
import TrustSchema.Proofs.Name.Uri
import TrustSchema.Proofs.Pattern.Matching
import TrustSchema.Proofs.Regex.Literal

/-!
A name can be asked for by a relation to it, or by a pattern of its own components, each written as
a test that no other component passes. Relations compare octets and patterns follow texts. As no two
components have the same text, both kinds of filter cover the same packets.
-/

namespace TrustSchema

open Pattern Grammar

/-- The texts of the components, which a pattern is followed through. -/
def Name.texts (n : Name) : List Text :=
  n.components.map Component.toUri

theorem Name.texts_inj {n m : Name} : n.texts = m.texts ↔ n = m := by
  rw [texts, texts, (List.map_injective_iff.mpr Component.toUri_injective).eq_iff, Name.mk.injEq]

theorem Name.texts_prefix_iff {n m : Name} :
    n.texts <+: m.texts ↔ n.components <+: m.components :=
  List.prefix_map_iff_of_injective Component.toUri_injective

theorem Pattern.exists_concat_prefix_iff {start whole : List Text} :
    (∃ text, start ++ [text] <+: whole) ↔ start <+: whole ∧ whole ≠ start := by
  constructor
  · rintro ⟨text, after, rfl⟩
    rw [List.append_assoc]
    exact ⟨List.prefix_append _ _, by simp⟩
  · rintro ⟨⟨after, rfl⟩, longer⟩
    cases after with
    | nil => simp at longer
    | cons text after => exact ⟨text, after, by simp⟩

/-- Relations can be told from the texts of the components. -/
theorem Relation.relates_iff_texts (r : Relation) (rule name : Name) :
    r.Relates rule name ↔
      match r with
      | equal => name.texts = rule.texts
      | isPrefixOf => rule.texts <+: name.texts
      | isStrictPrefixOf => ∃ text, rule.texts ++ [text] <+: name.texts := by
  cases r with
  | equal => exact Name.texts_inj.symm
  | isPrefixOf => exact Name.texts_prefix_iff.symm
  | isStrictPrefixOf =>
    rw [Relates, exists_concat_prefix_iff, Name.texts_prefix_iff, ne_eq, ne_eq, Name.texts_inj]

variable {α : Type} [ComponentLanguage α]

/-- A pattern that begins at the first component matches if one of its words begins the texts, and
is all of them if the pattern ends at the last one. -/
theorem Pattern.matchesTexts_iff_prefix {p : Pattern α} (anchored : p.anchoredStart = true)
    (texts : List Text) :
    p.matchesTexts texts = true ↔
      ∃ word, Sequence p.nodes word ∧ word <+: texts ∧ (p.anchoredEnd = true → word = texts) := by
  rw [matchesTexts_iff]
  constructor
  · rintro ⟨i, j, -, -, atStart, atEnd, sequence⟩
    -- A stretch from the first text on is as many of the texts as it has.
    obtain rfl := atStart anchored
    rw [List.extract_eq_take_drop, Nat.sub_zero, List.drop_zero] at sequence
    refine ⟨texts.take j, sequence, List.take_prefix j texts, fun closed => ?_⟩
    rw [atEnd closed, List.take_length]
  · rintro ⟨word, sequence, start, atEnd⟩
    refine ⟨0, word.length, Nat.zero_le _, start.length_le, fun _ => rfl, ?_, ?_⟩
    · intro closed
      rw [atEnd closed]
    · rw [List.extract_eq_take_drop, Nat.sub_zero, List.drop_zero,
        ← List.prefix_iff_eq_take.mp start]
      exact sequence

/-- What one more component of any kind adds to a word. -/
theorem Pattern.sequence_concat_any_iff (nodes : List (Node α)) (word : List Text) :
    Sequence (nodes ++ [.one (.single .any) (.exactly 1)]) word ↔
      ∃ front text, word = front ++ [text] ∧ Sequence nodes front := by
  rw [sequence_append_iff]
  simp only [sequence_once_iff]
  constructor
  · rintro ⟨front, _, rfl, sequence, text, rfl, -⟩
    exact ⟨front, text, rfl, sequence⟩
  · rintro ⟨front, text, rfl, sequence⟩
    exact ⟨front, [text], rfl, sequence, text, rfl, .single (.any text)⟩

namespace Filter

theorem exists_ofPattern? {body : Text} {nodes : List (Node α)} (written : Elements body nodes)
    (closed : Bool) :
    ∃ f : Filter α, ofPattern? ('^' :: (body ++ if closed then ['$'] else [])) = .ok f ∧
      ∀ name, f.coversName name = true ↔ ∃ word, Sequence nodes word ∧ word <+: name.texts ∧
        (closed = true → word = name.texts) := by
  let p : Pattern α := ⟨'^' :: (body ++ if closed then ['$'] else []), true, closed, nodes⟩
  have whole : Whole p.text p := .intro true closed written rfl
  refine ⟨.pattern p, ?_, fun name => matchesTexts_iff_prefix rfl _⟩
  rw [ofPattern?, (compile?_ok_iff _ p).mpr whole]
  rfl

/-- A packet is covered by its name, so filters that cover the same names cover the same packets. -/
theorem covers_eq_relation {f : Filter α} {r : Relation} {rule : Name}
    (same : ∀ name, f.coversName name = true ↔ r.Relates rule name) (p : Packet) :
    f.covers p = (relation r rule : Filter α).covers p := by
  have names : f.coversName = (relation r rule : Filter α).coversName := by
    funext name
    rw [Bool.eq_iff_iff, same, coversName, Relation.holds_iff]
  rw [covers, covers, names]

/-- If the language of the tests takes the components of a name literally, these tests one after
another are read as patterns, which cover the packets that the relations to the name cover: the
tests from end to end, those at the beginning, and those with one component more. -/
theorem ofPattern?_covers (n : Name) (literal : ∀ c ∈ n.components, ReadsLiterally α c.toUri) :
    ∃ whole start longer : Filter α,
      ofPattern? ('^' :: (literalElements n.texts ++ ['$'])) = .ok whole ∧
      ofPattern? ('^' :: literalElements n.texts) = .ok start ∧
      ofPattern? ('^' :: (literalElements n.texts ++ ['<', '>'])) = .ok longer ∧
      ∀ p : Packet,
        whole.covers p = (relation .equal n : Filter α).covers p ∧
        start.covers p = (relation .isPrefixOf n : Filter α).covers p ∧
        longer.covers p = (relation .isStrictPrefixOf n : Filter α).covers p := by
  have readable : ∀ text ∈ n.texts, text ≠ [] ∧ '>' ∉ text ∧ ReadsLiterally α text := by
    intro text member
    obtain ⟨c, inside, rfl⟩ := List.mem_map.mp member
    refine ⟨c.toUri_ne_nil, fun special => ?_, literal c inside⟩
    exact Text.Percent.ne_of_isPrinted (Component.isPrinted_of_mem_toUri special) (by decide) rfl
  -- The three patterns share these elements, whose only word are the texts of the name.
  obtain ⟨nodes, written, words⟩ := exists_literalElements readable
  obtain ⟨whole, wholeRead, wholeCovers⟩ := exists_ofPattern? written true
  obtain ⟨start, startRead, startCovers⟩ := exists_ofPattern? written false
  obtain ⟨longer, longerRead, longerCovers⟩ :=
    exists_ofPattern? (written.append Grammar.Member.any.elements) false
  rw [if_neg Bool.false_ne_true, List.append_nil] at startRead longerRead
  refine ⟨whole, start, longer, wholeRead, startRead, longerRead, fun p => ⟨?_, ?_, ?_⟩⟩
  · refine covers_eq_relation (fun name => ?_) p
    rw [wholeCovers, Relation.relates_iff_texts]
    simp only [words, exists_eq_left, forall_const]
    constructor
    · rintro ⟨-, same⟩
      exact same.symm
    · intro same
      exact ⟨same ▸ List.prefix_rfl, same.symm⟩
  · refine covers_eq_relation (fun name => ?_) p
    rw [startCovers, Relation.relates_iff_texts]
    simp [words]
  · refine covers_eq_relation (fun name => ?_) p
    rw [longerCovers, Relation.relates_iff_texts]
    simp only [sequence_concat_any_iff, words]
    constructor
    · rintro ⟨_, ⟨_, text, rfl, rfl⟩, start, -⟩
      exact ⟨text, start⟩
    · rintro ⟨text, start⟩
      exact ⟨_, ⟨_, text, rfl, rfl⟩, start, fun closed => absurd closed Bool.false_ne_true⟩

/-- A component with signs that have a meaning in tests, an empty one and one that is escaped. -/
def dottedName : Name :=
  ⟨[⟨[0x61, 0x2E, 0x62, 0x2B]⟩, ⟨[]⟩, ⟨[0]⟩]⟩

theorem ofPattern?_covers_dottedName :
    (∀ c ∈ dottedName.components, ReadsLiterally Regex c.toUri) ∧
    ∃ whole start longer : Filter Regex,
      ofPattern? "^<a\\.b\\+><\\.\\.\\.><%00>$".toList = .ok whole ∧
      ofPattern? "^<a\\.b\\+><\\.\\.\\.><%00>".toList = .ok start ∧
      ofPattern? "^<a\\.b\\+><\\.\\.\\.><%00><>".toList = .ok longer ∧
      ∀ p : Packet,
        whole.covers p = (relation .equal dottedName : Filter Regex).covers p ∧
        start.covers p = (relation .isPrefixOf dottedName : Filter Regex).covers p ∧
        longer.covers p = (relation .isStrictPrefixOf dottedName : Filter Regex).covers p := by
  have fits : ∀ c ∈ dottedName.components, (Regex.wholeLiteral c.toUri).fits = true := by
    rw [← List.all_eq_true]
    decide +kernel
  have literal : ∀ c ∈ dottedName.components, ReadsLiterally Regex c.toUri := fun c member =>
    Regex.readsLiterally c.toUri_ne_nil (fun _ => Component.isPrinted_of_mem_toUri) (fits c member)
  exact ⟨literal, ofPattern?_covers dottedName literal⟩

end Filter

end TrustSchema
