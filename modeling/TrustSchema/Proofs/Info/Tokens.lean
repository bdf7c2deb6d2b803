import Mathlib.Data.List.Forall2
import TrustSchema.Info.Token

/-!
Texts that spell given tokens, whatever follows them. Blanks, line ends, braces and quoted words do
so on their own; a bare word needs a character after it that ends it.
-/

namespace TrustSchema.Info

/-- What a character of a word may be written as between quotes. Three characters need an escape,
and a tab may have one. -/
inductive CharForm : Char → Text → Prop
  | mark : CharForm '"' ['\\', '"']
  | backslash : CharForm '\\' ['\\', '\\']
  | newline : CharForm '\n' ['\\', 'n']
  | tab : CharForm '\t' ['\\', 't']
  | itself (c : Char) : c ≠ '"' → c ≠ '\\' → c ≠ '\n' → CharForm c [c]

/-- A character of a word as it stands between quotes. -/
def escapeChar : Char → Text
  | '"' => ['\\', '"']
  | '\\' => ['\\', '\\']
  | '\n' => ['\\', 'n']
  | c => [c]

/-- A word in quotes. -/
def quote (word : Text) : Text :=
  '"' :: (word.flatMap escapeChar ++ ['"'])

/-- The text gives the tokens and leaves alone what follows it. -/
def Spells (text : Text) (written : List Token) : Prop :=
  ∀ line rest after, tokenize (line + text.count '\n') rest = .ok after →
    ∃ located, located.map Located.token = written ∧
      tokenize line (text ++ rest) = .ok (located ++ after)

theorem isBare_iff (c : Char) :
    isBare c = true ↔ Text.isBlank c = false ∧ c ≠ '{' ∧ c ≠ '}' ∧ c ≠ ';' ∧ c ≠ '"' := by
  simp only [isBare, Bool.not_eq_true', Bool.or_eq_false_iff, beq_eq_false_iff_ne, and_assoc]

theorem charForm_escapeChar (c : Char) : CharForm c (escapeChar c) := by
  unfold escapeChar
  split
  · exact .mark
  · exact .backslash
  · exact .newline
  next mark backslash newline => exact .itself c mark backslash newline

theorem charForms_escape (word : Text) : List.Forall₂ CharForm word (word.map escapeChar) := by
  rw [List.forall₂_map_right_iff, List.forall₂_same]
  exact fun c _ => charForm_escapeChar c

theorem quote_eq (word : Text) : quote word = '"' :: ((word.map escapeChar).flatten ++ ['"']) := by
  rw [quote, List.flatMap_def]

theorem quoted_forms {word : Text} {forms : List Text} (written : List.Forall₂ CharForm word forms)
    (rest : Text) : quoted (forms.flatten ++ '"' :: rest) = .ok (word, rest) := by
  induction written with
  | nil => rfl
  | @cons c form word forms first _ ih =>
    rw [List.flatten_cons, List.append_assoc]
    cases first with
    | mark | backslash | newline | tab =>
      change (quoted (forms.flatten ++ '"' :: rest)).map _ = _
      rw [ih]
      rfl
    | itself _ mark backslash newline =>
      rw [List.singleton_append, quoted]
      · rw [ih]
        rfl
      all_goals simp [newline, mark, backslash]

theorem not_mem_forms {word : Text} {forms : List Text}
    (written : List.Forall₂ CharForm word forms) : '\n' ∉ forms.flatten := by
  induction written with
  | nil => exact List.not_mem_nil
  | @cons c form word forms first _ ih =>
    rw [List.flatten_cons, List.mem_append, not_or]
    refine ⟨?_, ih⟩
    cases first with
    | mark | backslash | newline | tab => decide
    | itself _ _ _ newline =>
      rw [List.mem_singleton]
      exact Ne.symm newline

/-! ### One token -/

private theorem ok_map {ε α β : Type} {read : Except ε α} {a : α} (f : α → β)
    (known : read = .ok a) : read.map f = .ok (f a) := by
  rw [known]
  rfl

theorem tokenize_blank {c : Char} (blank : Text.isBlank c = true) (inside : c ≠ '\n')
    (line : Nat) (rest : Text) : tokenize line (c :: rest) = tokenize line rest := by
  rw [tokenize, if_pos blank]
  · exact inside
  all_goals
    rintro rfl
    revert blank
    decide

/-- A comment leaves the end of its line. -/
theorem tokenize_comment {note : Text} (oneLine : '\n' ∉ note) (line : Nat) (rest : Text) :
    tokenize line (';' :: (note ++ rest)) = tokenize line (rest.dropWhile (· ≠ '\n')) := by
  have inside : ∀ c ∈ note, decide (c ≠ '\n') = true := by
    intro c member
    rw [decide_eq_true_eq]
    rintro rfl
    exact oneLine member
  rw [tokenize, List.dropWhile_append_of_pos inside]

theorem tokenize_bare {word rest : Text} (nonempty : word ≠ []) (bare : ∀ c ∈ word, isBare c = true)
    (ends : ∀ c ∈ rest.head?, isBare c = false) (line : Nat) :
    tokenize line (word ++ rest) = (tokenize line rest).map (⟨.word word, line⟩ :: ·) := by
  cases word with
  | nil => exact absurd rfl nonempty
  | cons c word =>
    obtain ⟨solid, notOpen, notClose, notComment, notQuote⟩ :=
      (isBare_iff c).mp (bare c List.mem_cons_self)
    have inside : c ≠ '\n' := by
      rintro rfl
      revert solid
      decide
    have others : ∀ c ∈ word, isBare c = true :=
      fun other member => bare other (List.mem_cons_of_mem _ member)
    have taken : (word ++ rest).takeWhile isBare = word := by
      rw [List.takeWhile_append_of_pos others]
      cases rest with
      | nil => exact List.append_nil word
      | cons stop rest => simp [ends stop rfl]
    have dropped : (word ++ rest).dropWhile isBare = rest := by
      rw [List.dropWhile_append_of_pos others]
      cases rest with
      | nil => rfl
      | cons stop rest => simp [ends stop rfl]
    rw [List.cons_append, tokenize, if_neg (by simp [solid]), taken, dropped]
    · exact inside
    · exact notComment
    · exact notOpen
    · exact notClose
    · exact notQuote

theorem tokenize_forms {word : Text} {forms : List Text}
    (written : List.Forall₂ CharForm word forms) (line : Nat) (rest : Text) :
    tokenize line ('"' :: (forms.flatten ++ '"' :: rest)) =
      (tokenize line rest).map (⟨.word word, line⟩ :: ·) := by
  have read := quoted_forms written rest
  rw [tokenize]
  split
  next fault failed =>
    rw [read] at failed
    cases failed
  next other after done =>
    rw [read] at done
    cases done
    rfl

/-! ### Spelling -/

namespace Spells

theorem nil : Spells [] [] := by
  intro line rest after read
  exact ⟨[], rfl, read⟩

theorem append {a b : Text} {xs ys : List Token} (first : Spells a xs) (second : Spells b ys) :
    Spells (a ++ b) (xs ++ ys) := by
  intro line rest after read
  -- The second text begins on the line on which the first one ends.
  rw [List.count_append, ← Nat.add_assoc] at read
  obtain ⟨later, spelled, read⟩ := second _ _ _ read
  obtain ⟨earlier, spelled', read⟩ := first _ _ _ read
  refine ⟨earlier ++ later, ?_, ?_⟩
  · rw [List.map_append, spelled', spelled]
  · rw [List.append_assoc, read, List.append_assoc]

theorem blank {c : Char} (blank : Text.isBlank c = true) (inside : c ≠ '\n') : Spells [c] [] := by
  intro line rest after read
  rw [List.count_singleton, if_neg (by simpa using inside)] at read
  exact ⟨[], rfl, (tokenize_blank blank inside line rest).trans read⟩

theorem single {text : Text} {t : Token} (read : ∀ line rest, tokenize line (text ++ rest) =
    (tokenize (line + text.count '\n') rest).map (⟨t, line⟩ :: ·)) : Spells text [t] := by
  intro line rest after known
  refine ⟨[⟨t, line⟩], rfl, ?_⟩
  rw [read]
  exact ok_map _ known

theorem newline : Spells ['\n'] [.lineEnd] := by
  apply single
  intro line rest
  rw [List.singleton_append, tokenize]
  rfl

theorem comment {note : Text} (oneLine : '\n' ∉ note) :
    Spells (';' :: (note ++ ['\n'])) [.lineEnd] := by
  apply single
  intro line rest
  have breaks : (';' :: (note ++ ['\n'])).count '\n' = 1 := by
    simp [List.count_eq_zero_of_not_mem oneLine]
  rw [breaks, List.cons_append, List.append_assoc, tokenize_comment oneLine,
    List.singleton_append, List.dropWhile_cons_of_neg (by decide), tokenize]

theorem blockOpen : Spells ['{'] [.blockOpen] := by
  apply single
  intro line rest
  rw [List.singleton_append, tokenize]
  rfl

theorem blockClose : Spells ['}'] [.blockClose] := by
  apply single
  intro line rest
  rw [List.singleton_append, tokenize]
  rfl

theorem forms {word : Text} {forms : List Text} (written : List.Forall₂ CharForm word forms) :
    Spells ('"' :: (forms.flatten ++ ['"'])) [.word word] := by
  apply single
  intro line rest
  have oneLine : '\n' ∉ '"' :: (forms.flatten ++ ['"']) := by
    simp only [List.mem_cons, List.mem_append, List.not_mem_nil, or_false, not_or]
    exact ⟨by decide, not_mem_forms written, by decide⟩
  rw [List.count_eq_zero_of_not_mem oneLine, List.cons_append, List.append_assoc,
    List.singleton_append, tokenize_forms written]
  rfl

theorem quote (word : Text) : Spells (quote word) [.word word] := by
  rw [quote_eq]
  exact forms (charForms_escape word)

theorem bare {word text : Text} {written : List Token} {stop : Char} (nonempty : word ≠ [])
    (bare : ∀ c ∈ word, isBare c = true) (ends : isBare stop = false)
    (spelled : Spells (stop :: text) written) :
    Spells (word ++ stop :: text) (.word word :: written) := by
  intro line rest after read
  have oneLine : '\n' ∉ word := by
    intro member
    have := bare _ member
    revert this
    decide
  rw [List.count_append, List.count_eq_zero_of_not_mem oneLine, Nat.zero_add] at read
  obtain ⟨located, same, read⟩ := spelled line rest after read
  have ended : ∀ c ∈ (stop :: text ++ rest).head?, isBare c = false := by
    intro c first
    rw [← Option.some.inj first]
    exact ends
  refine ⟨⟨.word word, line⟩ :: located, ?_, ?_⟩
  · rw [List.map_cons, same]
  · rw [List.append_assoc, tokenize_bare nonempty bare ended]
    exact ok_map _ read

end Spells

/-! ### Whole texts -/

/-- The text gives the tokens, with nothing after it. -/
def Scans (text : Text) (written : List Token) : Prop :=
  ∀ line, ∃ located, located.map Located.token = written ∧ tokenize line text = .ok located

namespace Scans

theorem nil : Scans [] [] := by
  intro line
  exact ⟨[], rfl, by rw [tokenize]⟩

theorem after {a b : Text} {xs ys : List Token} (first : Spells a xs) (second : Scans b ys) :
    Scans (a ++ b) (xs ++ ys) := by
  intro line
  obtain ⟨later, spelled, read⟩ := second (line + a.count '\n')
  obtain ⟨earlier, spelled', read⟩ := first line b later read
  refine ⟨earlier ++ later, ?_, read⟩
  rw [List.map_append, spelled', spelled]

theorem lastComment {note : Text} (oneLine : '\n' ∉ note) : Scans (';' :: note) [] := by
  intro line
  obtain ⟨located, spelled, read⟩ := nil line
  refine ⟨located, spelled, ?_⟩
  rw [← List.append_nil note, tokenize_comment oneLine]
  exact read

theorem bare {word rest : Text} {written : List Token} (nonempty : word ≠ [])
    (bare : ∀ c ∈ word, isBare c = true) (ends : ∀ c ∈ rest.head?, isBare c = false)
    (scans : Scans rest written) : Scans (word ++ rest) (.word word :: written) := by
  intro line
  obtain ⟨located, spelled, read⟩ := scans line
  refine ⟨⟨.word word, line⟩ :: located, ?_, ?_⟩
  · rw [List.map_cons, spelled]
  · rw [tokenize_bare nonempty bare ends]
    exact ok_map _ read

end Scans

theorem Spells.tokens {text : Text} {written : List Token} (spelled : Spells text written) :
    ∃ located, located.map Located.token = written ∧ Info.tokens text = .ok located := by
  have scans := Scans.after spelled .nil
  rw [List.append_nil, List.append_nil] at scans
  exact scans 1

end TrustSchema.Info
