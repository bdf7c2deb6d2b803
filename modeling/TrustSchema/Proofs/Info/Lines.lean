import TrustSchema.Proofs.Info.Offending
import TrustSchema.Proofs.Info.Rendering
import TrustSchema.Proofs.Text.Blank

/-!
The lines that tokens and faults are given. A text is cut into tokens, blanks and comments without
counting anything; each token then has the line on which the text before it ends. Faults carry the
line of what is wrong: a string that is not right begins there, or a token stands there that no
section has after the tokens before it.
-/

namespace TrustSchema.Info

/-- The line on which a text ends. -/
def lineAfter (before : Text) : Nat :=
  1 + before.count '\n'

/-- What a token stands as in a text. -/
inductive Form : Token → Text → Prop
  | lineEnd : Form .lineEnd ['\n']
  | blockOpen : Form .blockOpen ['{']
  | blockClose : Form .blockClose ['}']
  | word {word form : Text} : WordForm word form → Form (.word word) form

/-- How a text is cut up that follows `before`: into tokens, each with the whole text before it, and
what is left over. Between tokens are blanks and comments; a comment goes on to the end of its line,
and a bare word as far as it can. -/
inductive Cut : Text → Text → List (Text × Token) → Text → Prop
  | stop (before rest : Text) : Cut before rest [] rest
  | blank {before text rest : Text} {placed : List (Text × Token)} {c : Char} :
      Text.isBlank c = true → c ≠ '\n' → Cut (before ++ [c]) text placed rest →
      Cut before (c :: text) placed rest
  | comment {before note text rest : Text} {placed : List (Text × Token)} :
      '\n' ∉ note → (∀ c ∈ text.head?, c = '\n') → Cut (before ++ ';' :: note) text placed rest →
      Cut before (';' :: (note ++ text)) placed rest
  | token {before form text rest : Text} {placed : List (Text × Token)} {t : Token} :
      Form t form → (Bare form → Ends text) → Cut (before ++ form) text placed rest →
      Cut before (form ++ text) ((before, t) :: placed) rest

/-- A token with the line on which the text before it ends. -/
def locate (placed : Text × Token) : Located :=
  ⟨placed.2, lineAfter placed.1⟩

/-- What is read of a text that follows `before`: all of its tokens, or those before a string that
is not right, with the fault of the string and the line on which it begins. -/
def Traced (before text : Text) : Except SyntaxError (List Located) → Prop
  | .ok located => ∃ placed, Cut before text placed [] ∧ located = placed.map locate
  | .error e => ∃ placed front after, Cut before text placed ('"' :: after) ∧
      before ++ text = front ++ '"' :: after ∧ quoted after = .error e.fault ∧
      e.line = lineAfter front

/-! ### Cutting a text -/

theorem lineAfter_append {form : Text} (oneLine : '\n' ∉ form) (before : Text) :
    lineAfter (before ++ form) = lineAfter before := by
  rw [lineAfter, List.count_append, List.count_eq_zero_of_not_mem oneLine, Nat.add_zero, lineAfter]

theorem lineAfter_newline (before : Text) :
    lineAfter (before ++ ['\n']) = lineAfter before + 1 := by
  rw [lineAfter, List.count_append, List.count_singleton_self, lineAfter, Nat.add_assoc]

theorem lineAfter_le {before text : Text} (front : before <+: text) :
    lineAfter before ≤ lineAfter text :=
  Nat.add_le_add_left (front.sublist.count_le '\n') 1

section

variable {before text : Text} {outcome : Except SyntaxError (List Located)}

theorem Traced.blank {c : Char} (white : Text.isBlank c = true) (inside : c ≠ '\n')
    (traced : Traced (before ++ [c]) text outcome) : Traced before (c :: text) outcome := by
  cases outcome with
  | ok located =>
    obtain ⟨placed, cut, same⟩ := traced
    exact ⟨placed, .blank white inside cut, same⟩
  | error e =>
    obtain ⟨placed, front, after, cut, whole, failed, line⟩ := traced
    exact ⟨placed, front, after, .blank white inside cut, by rw [← whole]; simp, failed, line⟩

theorem Traced.comment {note : Text} (oneLine : '\n' ∉ note) (ended : ∀ c ∈ text.head?, c = '\n')
    (traced : Traced (before ++ ';' :: note) text outcome) :
    Traced before (';' :: (note ++ text)) outcome := by
  cases outcome with
  | ok located =>
    obtain ⟨placed, cut, same⟩ := traced
    exact ⟨placed, .comment oneLine ended cut, same⟩
  | error e =>
    obtain ⟨placed, front, after, cut, whole, failed, line⟩ := traced
    exact ⟨placed, front, after, .comment oneLine ended cut, by rw [← whole]; simp, failed, line⟩

theorem Traced.token {t : Token} {form : Text} (formed : Form t form) (ends : Bare form → Ends text)
    (traced : Traced (before ++ form) text outcome) :
    Traced before (form ++ text) (outcome.map (⟨t, lineAfter before⟩ :: ·)) := by
  cases outcome with
  | ok located =>
    obtain ⟨placed, cut, rfl⟩ := traced
    exact ⟨(before, t) :: placed, .token formed ends cut, rfl⟩
  | error e =>
    obtain ⟨placed, front, after, cut, whole, failed, line⟩ := traced
    exact ⟨(before, t) :: placed, front, after, .token formed ends cut, by rw [← whole]; simp,
      failed, line⟩

end

theorem bare_of_isBare {word : Text} (some : word ≠ []) (bare : ∀ c ∈ word, isBare c = true) :
    Bare word := by
  refine ⟨some, fun c member => ?_⟩
  obtain ⟨solid, special⟩ := (isBare_iff c).mp (bare c member)
  simpa [solid] using special

theorem not_bare_cons {c : Char} (special : c ∈ ['{', '}', ';', '"']) (form : Text) :
    ¬Bare (c :: form) :=
  fun bare => (bare.2 c List.mem_cons_self).2 special

/-- What is read as a quoted word is a form of the word. -/
theorem exists_forms_of_quoted {text word after : Text} (read : quoted text = .ok (word, after)) :
    ∃ forms, List.Forall₂ CharForm word forms ∧ text = forms.flatten ++ '"' :: after := by
  fun_induction quoted text generalizing word with
  | case1 | case2 | case4 | case5 => cases read
  | case3 rest =>
    cases read
    exact ⟨[], .nil, rfl⟩
  | case6 c rest plain known ih =>
    obtain ⟨⟨inner, _⟩, inside, same⟩ := Text.ok_of_map read
    cases same
    obtain ⟨forms, formed, rfl⟩ := ih inside
    refine ⟨['\\', c] :: forms, .cons ?_ formed, rfl⟩
    -- Four characters stand for something after a backslash.
    unfold unescape? at known
    split at known <;> cases known
    · exact .newline
    · exact .tab
    · exact .mark
    · exact .backslash
  | case7 c rest newline mark last escape ih =>
    obtain ⟨⟨inner, _⟩, inside, same⟩ := Text.ok_of_map read
    cases same
    obtain ⟨forms, formed, rfl⟩ := ih inside
    refine ⟨[c] :: forms, .cons (.itself c mark ?_ newline) formed, rfl⟩
    -- A backslash would have been read with the character after it, and one comes in any case.
    rintro rfl
    cases whole : forms.flatten with
    | nil => exact escape _ _ rfl (by rw [whole]; rfl)
    | cons d others => exact escape _ _ rfl (by rw [whole]; rfl)

/-- The tokens of a text and its faults have the lines on which the text before them ends. -/
theorem traced_tokenize (before text : Text) :
    Traced before text (tokenize (lineAfter before) text) := by
  generalize start : lineAfter before = line
  -- The line that is counted stays the one on which the text so far ends.
  fun_induction tokenize line text generalizing before with
  | case1 => exact ⟨[], .stop before [], rfl⟩
  | case2 line rest ih =>
    subst start
    exact .token .lineEnd (fun bare => absurd (bare.2 _ List.mem_cons_self).1 (by decide))
      (ih _ (lineAfter_newline before))
  | case3 line rest ih =>
    subst start
    -- The note goes up to the end of the line, which stays for the next token.
    have oneLine := Text.not_mem_takeWhile_ne '\n' rest
    have ended : ∀ c ∈ (rest.dropWhile (· ≠ '\n')).head?, c = '\n' :=
      fun _ => Text.eq_of_head?_dropWhile_ne
    have silent : '\n' ∉ ';' :: rest.takeWhile (· ≠ '\n') := by
      rw [List.mem_cons, not_or]
      exact ⟨by decide, oneLine⟩
    have traced := Traced.comment oneLine ended (ih _ (lineAfter_append silent before))
    rwa [List.takeWhile_append_dropWhile] at traced
  | case4 line rest ih =>
    subst start
    exact .token .blockOpen (fun bare => absurd bare (not_bare_cons (by decide) _))
      (ih _ (lineAfter_append (by decide) before))
  | case5 line rest ih =>
    subst start
    exact .token .blockClose (fun bare => absurd bare (not_bare_cons (by decide) _))
      (ih _ (lineAfter_append (by decide) before))
  | case6 line rest fault failed =>
    subst start
    exact ⟨[], before, rest, .stop before _, rfl, failed, rfl⟩
  | case7 line rest word after read ih =>
    subst start
    obtain ⟨forms, formed, rfl⟩ := exists_forms_of_quoted read
    have oneLine : '\n' ∉ '"' :: (forms.flatten ++ ['"']) := by
      have := not_mem_forms formed
      simp [this]
    have traced := Traced.token (.word (.quoted formed))
      (fun bare => absurd bare (not_bare_cons (by decide) _))
      (ih _ (lineAfter_append oneLine before))
    simpa using traced
  | case8 line c rest newline _ _ _ _ white ih =>
    subst start
    exact .blank white newline (ih _ (lineAfter_append (by simpa using Ne.symm newline) before))
  | case9 line c rest newline comment opening closing mark solid ih =>
    subst start
    -- What is left is a bare word, which ends before the first character that is not bare.
    have first : isBare c = true :=
      (isBare_iff c).mpr ⟨Bool.eq_false_iff.mpr solid, opening, closing, comment, mark⟩
    have bare : ∀ d ∈ c :: rest.takeWhile isBare, isBare d = true :=
      List.forall_mem_cons.mpr ⟨first, fun d => List.mem_takeWhile_imp⟩
    have oneLine : '\n' ∉ c :: rest.takeWhile isBare := fun member => by
      have := bare _ member
      revert this
      decide
    have traced := Traced.token (.word (.bare (bare_of_isBare (List.cons_ne_nil _ _) bare)))
      (fun _ _ => Text.eq_false_of_head?_dropWhile)
      (ih _ (lineAfter_append oneLine before))
    rwa [List.cons_append, List.takeWhile_append_dropWhile] at traced

/-! ### The order of lines -/

/-- The tokens of a text stand one after another in it. -/
theorem Cut.ordered {before text rest : Text} {placed : List (Text × Token)}
    (cut : Cut before text placed rest) :
    (∀ p ∈ placed, before <+: p.1 ∧ p.1 <+: before ++ text) ∧
      placed.Pairwise (fun p q => p.1 <+: q.1) := by
  -- Every case but the first reads a piece of the text and goes on behind it.
  have onward {before piece text front : Text}
      (inside : before ++ piece <+: front ∧ front <+: (before ++ piece) ++ text) :
      before <+: front ∧ front <+: before ++ (piece ++ text) :=
    ⟨(List.prefix_append _ _).trans inside.1, List.append_assoc .. ▸ inside.2⟩
  induction cut with
  | stop => exact ⟨fun _ absent => absurd absent List.not_mem_nil, .nil⟩
  | blank _ _ _ ih => exact ⟨fun p member => onward (ih.1 p member), ih.2⟩
  | comment _ _ _ ih => exact ⟨fun p member => onward (ih.1 p member), ih.2⟩
  | @token before form text rest placed t _ _ _ ih =>
    have later (p : Text × Token) (member : p ∈ placed) := onward (ih.1 p member)
    refine ⟨List.forall_mem_cons.mpr ⟨?_, later⟩, .cons (fun p member => (later p member).1) ih.2⟩
    exact ⟨List.prefix_rfl, List.prefix_append before _⟩

/-- The lines of the tokens of a text never decrease, and none is beyond the last line. -/
theorem Cut.lines {text rest : Text} {placed : List (Text × Token)}
    (cut : Cut [] text placed rest) :
    (placed.map locate).Pairwise (·.line ≤ ·.line) ∧
      ∀ t ∈ placed.map locate, 1 ≤ t.line ∧ t.line ≤ lineAfter text := by
  constructor
  · exact List.pairwise_map.mpr (cut.ordered.2.imp lineAfter_le)
  · rintro t member
    obtain ⟨p, placed, rfl⟩ := List.mem_map.mp member
    exact ⟨Nat.le_add_right 1 _, lineAfter_le (cut.ordered.1 p placed).2⟩

theorem Refused.exists_line {located : List Located} {e : SyntaxError}
    (refused : Refused located e) : ∃ t ∈ located, e.line = t.line := by
  cases refused with
  | token whole _ _ _ line => exact ⟨_, whole ▸ List.mem_append_right _ List.mem_cons_self, line⟩
  | openBlock _ _ _ final line => exact ⟨_, List.mem_of_getLast? final, line⟩

/-- Lines are exact. A token has the line on which the text before it ends, so lines never
decrease. A string that is not right is reported on the line where it begins, a token that no
section has there on its own line, and an open block at the end of the text on the line of the last
token. No fault is reported on a line that the text does not have. -/
theorem parse?_lines (text : Text) :
    (∀ located, tokens text = .ok located →
      (∃ placed, Cut [] text placed [] ∧ located = placed.map locate) ∧
        located.Pairwise (·.line ≤ ·.line)) ∧
    (∀ e, tokens text = .error e →
      ∃ placed before after, Cut [] text placed ('"' :: after) ∧ text = before ++ '"' :: after ∧
        quoted after = .error e.fault ∧ e.line = lineAfter before) ∧
    (∀ located e, tokens text = .ok located → ofTokens? located = .error e → Refused located e) ∧
    ∀ e, parse? text = .error e →
      (tokens text = .error e ∨
        ∃ located, tokens text = .ok located ∧ ofTokens? located = .error e) ∧
        1 ≤ e.line ∧ e.line ≤ 1 + text.count '\n' := by
  have traced : Traced [] text (tokens text) := traced_tokenize [] text
  refine ⟨fun located read => ?_, fun e failed => ?_, fun located e _ failed => ?_,
    fun e failed => ?_⟩
  · rw [read] at traced
    obtain ⟨placed, cut, rfl⟩ := traced
    exact ⟨⟨placed, cut, rfl⟩, cut.lines.1⟩
  · rw [failed] at traced
    exact traced
  · exact refused_of_ofTokens? failed
  · rcases Text.error_of_bind failed with unread | ⟨located, read, unbuilt⟩
    · rw [unread] at traced
      obtain ⟨placed, front, after, cut, whole, wrong, line⟩ := traced
      have inside : front <+: text := ⟨'"' :: after, whole.symm⟩
      exact ⟨.inl unread, line ▸ Nat.le_add_right 1 _, line ▸ lineAfter_le inside⟩
    · rw [read] at traced
      obtain ⟨placed, cut, rfl⟩ := traced
      obtain ⟨t, member, line⟩ := (refused_of_ofTokens? unbuilt).exists_line
      exact ⟨.inr ⟨_, read, unbuilt⟩, line ▸ cut.lines.2 t member⟩

end TrustSchema.Info
