import TrustSchema.Proofs.Regex.Lexicon

/-!
The tool's own engine does what is documented. While it reads an expression, the groups that it
builds have the meanings of the open groups of the expression, piece by piece.
-/

namespace TrustSchema.Regex

open Relator

variable {r : Regex} {m : Meaning}

theorem denotes_anyOf_singleton (denotes : Denotes r m) : Denotes r (.anyOf [m]) := by
  have same : Meaning.anyOf [m] = m := by
    funext text p q
    simp only [Meaning.anyOf, List.mem_singleton, exists_eq_left]
  rwa [same]

namespace OpenGroup

/-- A group that is built stands for a group of an expression. -/
structure StandsFor (g : OpenGroup) (h : Group Flags) : Prop where
  flags : g.flags = h.flags
  branches : List.Forall₂ (fun branch m => Denotes branch.1 m) g.branches h.branches
  pieces : List.Forall₂ (fun piece m => Option.Rel Denotes piece.regex m) g.pieces h.pieces

variable {g : OpenGroup} {h : Group Flags}

theorem standsFor_start (number : Option Nat) (flags : Flags) :
    (start number flags).StandsFor (.start flags) :=
  ⟨rfl, .nil, .nil⟩

theorem StandsFor.add (stands : g.StandsFor h) (denotes : Denotes r m) (height : Nat) :
    (g.add r height).StandsFor (h.add m) :=
  ⟨stands.flags, stands.branches, .cons (.some denotes) stands.pieces⟩

theorem StandsFor.sequence (stands : g.StandsFor h) : Denotes g.sequence.1 h.sequence :=
  denotes_concat (List.rel_filterMap (fun _ _ piece => piece) (List.rel_reverse stands.pieces))

theorem StandsFor.nextBranch (stands : g.StandsFor h) :
    g.nextBranch.StandsFor { h with branches := h.sequence :: h.branches, pieces := [] } :=
  ⟨stands.flags, .cons stands.sequence stands.branches, .nil⟩

theorem StandsFor.contents (stands : g.StandsFor h) : Denotes g.contents.1 h.contents := by
  have last := stands.sequence
  have all : List.Forall₂ (fun branch m => Denotes branch.1 m) (g.branches.reverse ++ [g.sequence])
      (h.branches.reverse ++ [h.sequence]) :=
    List.rel_append (List.rel_reverse stands.branches) (.cons last .nil)
  unfold OpenGroup.contents Group.contents
  split
  next single =>
    have none := stands.branches
    rw [single, List.forall₂_nil_left_iff] at none
    rw [none]
    exact denotes_anyOf_singleton last
  next => exact denotes_alternation (List.forall₂_map_left_iff.mpr all)

theorem StandsFor.finish (stands : g.StandsFor h) : Denotes g.finish.1 h.contents := by
  unfold OpenGroup.finish
  dsimp only
  split
  next => exact denotes_group stands.contents _
  next => exact stands.contents

end OpenGroup

namespace Builder

/-- What is known after some tokens stands for a place in an expression. -/
structure StandsFor (b : Builder) (s : Place Flags) : Prop where
  current : b.current.StandsFor s.current
  outer : List.Forall₂ OpenGroup.StandsFor b.outer s.outer

variable {b : Builder} {s : Place Flags}

theorem standsFor_start : start.StandsFor (.start .initial) :=
  ⟨OpenGroup.standsFor_start none .initial, .nil⟩

theorem StandsFor.add (stands : b.StandsFor s) (denotes : Denotes r m) (height : Nat) :
    (b.add r height).StandsFor { s with current := s.current.add m } :=
  ⟨stands.current.add denotes height, stands.outer⟩

/-- A set is a piece, unless it is no set of characters. -/
theorem StandsFor.step_set (stands : b.StandsFor s) (set : Except Fault CharSet) (height : Nat) :
    Option.Rel StandsFor (set >>= fun members => .ok (b.add (ofSet members) height)).toOption
      ((set.map fun members => Sign.piece members.meaning).toOption.bind s.step) := by
  cases set with
  | error => exact .none
  | ok members => exact .some (stands.add (denotes_ofSet members) height)

theorem StandsFor.step_repetition (stands : b.StandsFor s) (bounds : Bounds) (marked : Bool) :
    Option.Rel StandsFor (b.step (.repetition bounds marked)).toOption
      (s.step (.repetition bounds)) := by
  obtain ⟨⟨number, flags, branches, pieces⟩, outer, captures⟩ := b
  obtain ⟨⟨flags', branches', pieces'⟩, outer'⟩ := s
  obtain ⟨⟨sameFlags, sameBranches, samePieces⟩, sameOuter⟩ := stands
  cases samePieces with
  | nil => exact .none
  | @cons piece _ before before' last others =>
    obtain ⟨r, height⟩ := piece
    cases last with
    | none => exact .none
    | some denotes =>
      exact .some ⟨⟨sameFlags, sameBranches,
        .cons (.some (denotes_repetition denotes bounds _)) others⟩, sameOuter⟩

/-- A token is built in exactly if its sign is in place. -/
theorem StandsFor.step (stands : b.StandsFor s) (t : Token) :
    Option.Rel StandsFor (b.step t).toOption
      ((t.sign s.current.flags).toOption.bind s.step) := by
  have same := stands.current.flags
  cases t with
  | literal c asOctet => rw [← same]; exact stands.step_set (b.current.flags.literal c asOctet) 0
  | anyCharacter => rw [← same]; exact stands.step_set b.current.flags.anyCharacter 0
  | charClass members height =>
    rw [← same]
    exact stands.step_set (members.members b.current.flags) height
  | condition kind => exact .some (stands.add (denotes_look kind) 0)
  | lineStart => rw [← same]; exact .some (stands.add (denotes_look _) 0)
  | lineEnd => rw [← same]; exact .some (stands.add (denotes_look _) 0)
  | groupOpen captures change =>
    rw [← same]
    exact .some ⟨OpenGroup.standsFor_start _ _, .cons stands.current stands.outer⟩
  | groupClose =>
    obtain ⟨current, outer, captures⟩ := b
    obtain ⟨current', outer'⟩ := s
    obtain ⟨inside, around⟩ := stands
    cases around with
    | nil => exact .none
    | cons next others => exact .some ⟨next.add inside.finish _, others⟩
  | flags change =>
    rw [← same]
    exact .some ⟨⟨rfl, stands.current.branches, .cons .none stands.current.pieces⟩, stands.outer⟩
  | bar => exact .some ⟨stands.current.nextBranch, stands.outer⟩
  | repetition bounds marked => exact stands.step_repetition bounds marked

theorem StandsFor.exists_sign (stands : b.StandsFor s) {t : Token} {later : Builder}
    (stepped : b.step t = .ok later) :
    ∃ sign s', t.sign s.current.flags = .ok sign ∧ s.step sign = some s' ∧ later.StandsFor s' := by
  have rel := stands.step t
  rw [stepped] at rel
  cases signed : t.sign s.current.flags with
  | error => rw [signed] at rel; cases rel
  | ok sign =>
    rw [signed] at rel
    change Option.Rel StandsFor (some later) (s.step sign) at rel
    generalize placed : s.step sign = place at rel
    cases rel with
    | some again => exact ⟨sign, _, rfl, placed, again⟩

theorem StandsFor.exists_step (stands : b.StandsFor s) {t : Token} {sign : Sign Flags}
    {s' : Place Flags} (signed : t.sign s.current.flags = .ok sign)
    (stepped : s.step sign = some s') : ∃ later, b.step t = .ok later ∧ later.StandsFor s' := by
  have rel := stands.step t
  rw [signed] at rel
  change Option.Rel StandsFor (b.step t).toOption (s.step sign) at rel
  rw [stepped] at rel
  cases built : b.step t with
  | error => rw [built] at rel; cases rel
  | ok later =>
    rw [built] at rel
    cases rel with
    | some again => exact ⟨later, rfl, again⟩

variable [PropertyTable] {text : Text}

/-- A text that the engine reads is read sign by sign. -/
theorem StandsFor.exists_reads (stands : b.StandsFor s) {last : Builder}
    (read : b.read text = .ok last) :
    ∃ final, lexicon.Reads s text final ∧ last.StandsFor final := by
  fun_induction Builder.read b text generalizing s with
  | case1 b text skipped =>
    cases read
    rw [stands.current.flags] at skipped
    exact ⟨s, .done (next_of_nil skipped), stands⟩
  | case2 | case3 => cases read
  | case4 b text c rest skipped t after first later stepped ih =>
    rw [stands.current.flags] at skipped first
    obtain ⟨sign, s', signed, placed, again⟩ := stands.exists_sign stepped
    obtain ⟨final, signs, ended⟩ := ih again read
    have next := next_of_cons skipped first
    rw [signed] at next
    exact ⟨final, .cons next placed signs, ended⟩

/-- The engine reads every text that is read sign by sign. -/
theorem StandsFor.exists_read (stands : b.StandsFor s) {final : Place Flags}
    (signs : lexicon.Reads s text final) :
    ∃ last, b.read text = .ok last ∧ last.StandsFor final := by
  induction signs generalizing b with
  | @done s text none =>
    cases skipped : skipBlanks b.current.flags.ignoreSpace text with
    | nil => exact ⟨b, read_of_nil skipped, stands⟩
    | cons c rest =>
      rw [stands.current.flags] at skipped
      simp only [lexicon, skipped] at none
      obtain ⟨_, -, signed⟩ := Text.ok_of_bind none
      obtain ⟨_, -, same⟩ := Text.ok_of_map signed
      cases same
  | cons first placed _ ih =>
    obtain ⟨c, rest, t, skipped, token, signed⟩ := exists_token first
    obtain ⟨later, stepped, again⟩ := stands.exists_step signed placed
    obtain ⟨last, read, ended⟩ := ih again
    rw [← stands.current.flags] at skipped token
    refine ⟨last, ?_, ended⟩
    rw [read_of_cons skipped token, stepped]
    exact read

end Builder

theorem Builder.finish_of_outer_eq_nil {b : Builder} (outermost : b.outer = []) :
    b.finish = if maxNesting < b.current.contents.2 then .error .tooNested
      else .ok b.current.contents.1 := by
  rw [finish, outermost]

theorem Builder.contents_of_finish {b : Builder} (finished : b.finish = .ok r) :
    b.outer = [] ∧ b.current.contents.1 = r := by
  cases outermost : b.outer with
  | nil =>
    rw [finish_of_outer_eq_nil outermost] at finished
    split at finished
    next => cases finished
    next => exact ⟨rfl, Except.ok.inj finished⟩
  | cons =>
    rw [finish, outermost] at finished
    cases finished

variable [PropertyTable]

theorem parse?_of_finish {text : Text} {b : Builder} (read : Builder.start.read text = .ok b)
    (finished : b.finish = .ok r) :
    parse? text = if r.fits then .ok r else .error .tooLarge := by
  have whole : parse? text = if !r.fits then .error .tooLarge else .ok r := by
    rw [parse?, read]
    change (b.finish >>= _) = _
    rw [finished]
    rfl
  rw [whole]
  cases r.fits <;> rfl

/-- The engine takes expressions only, and it finds their matches. -/
theorem exists_writes_of_parse? {text : Text} (parsed : parse? text = .ok r) :
    ∃ meaning, lexicon.Writes text meaning ∧
      ∀ haystack, r.search haystack = true ↔ meaning.Occurs haystack := by
  obtain ⟨b, read, built⟩ := Text.ok_of_bind parsed
  obtain ⟨found, finished, -⟩ := Text.ok_of_bind built
  rw [parse?_of_finish read finished] at parsed
  split at parsed
  next =>
    cases parsed
    obtain ⟨outermost, rfl⟩ := Builder.contents_of_finish finished
    obtain ⟨final, signs, stands⟩ := Builder.standsFor_start.exists_reads read
    have closed := stands.outer
    rw [outermost, List.forall₂_nil_left_iff] at closed
    exact ⟨_, ⟨final, signs, closed, rfl⟩, stands.current.contents.search_iff⟩
  next => cases parsed

/-- The engine takes every expression within its limits. -/
theorem recognizes_of_valid {text : Text} (valid : lexicon.Valid text) :
    Engine.Recognizes Regex text := by
  obtain ⟨meaning, final, signs, outermost, -⟩ := valid
  obtain ⟨b, read, stands⟩ := Builder.standsFor_start.exists_read signs
  have closed := stands.outer
  rw [outermost, List.forall₂_nil_right_iff] at closed
  have finished := b.finish_of_outer_eq_nil closed
  change (∃ r, parse? text = .ok r) ∨ parse? text = .error .tooNested ∨
    parse? text = .error .tooLarge
  split at finished
  next deep =>
    refine .inr (.inl ?_)
    rw [parse?, read]
    change (b.finish >>= _) = _
    rw [finished]
    rfl
  next =>
    rw [parse?_of_finish read finished]
    split
    next => exact .inl ⟨_, rfl⟩
    next => exact .inr (.inr rfl)

/-! ### Signs -/

theorem next_group (flags : Flags) (rest : Text) :
    lexicon.next flags ('(' :: '?' :: ':' :: rest) = .ok (some (.opening flags, rest)) := by
  have read : tokenFrom flags.ignoreSpace '(' ('?' :: ':' :: rest) =
      .ok (.groupOpen false .nothing, rest) := by
    change groupStart (skipBlanks flags.ignoreSpace ('?' :: ':' :: rest)) = _
    rw [skipBlanks_of_solid (by decide) (by decide)]
    rfl
  exact next_solid (by decide) (by decide) read

theorem exists_blanks_closing {flags : Flags} {text after : Text}
    (first : lexicon.next flags text = .ok (some (.closing, after))) :
    ∃ blanks, text = blanks ++ ')' :: after ∧
      ∀ other, Ending other → lexicon.next flags (blanks ++ other) = lexicon.next flags other := by
  obtain ⟨c, rest, t, skipped, read, signed⟩ := exists_token first
  obtain rfl := eq_groupClose_of_sign signed
  obtain ⟨rfl, rfl⟩ := eq_of_tokenFrom_groupClose read
  obtain ⟨blanks, whole, same⟩ := takes_skipBlanks flags.ignoreSpace text
  rw [skipped] at whole same
  refine ⟨blanks, whole, fun other ending => ?_⟩
  have passed : skipBlanks flags.ignoreSpace (blanks ++ other) =
      skipBlanks flags.ignoreSpace other := by
    rw [same other (alike_of_ending ending), skipBlanks_of_ending ending]
    rfl
  simp only [lexicon, passed]

theorem exists_front_enclosed {s s' : Place Flags} {text inside after : Text} {sign : Sign Flags}
    (first : lexicon.next s.current.flags text = .ok (some (sign, inside ++ ')' :: after)))
    (stepped : s.step sign = some s')
    (ends : lexicon.EndsBy s'.current.flags (inside ++ ')' :: after) after) :
    ∃ front, text = front ++ (inside ++ ')' :: after) ∧
      ∀ other, Ending other →
        lexicon.next s.current.flags (front ++ (inside ++ other)) =
          .ok (some (sign, inside ++ other)) := by
  obtain ⟨c, rest, t, skipped, read, signed⟩ := exists_token first
  obtain ⟨blanks, rfl, skippedAgain⟩ := exists_blanks skipped
  obtain ⟨taken, rfl, readAgain⟩ := readsAlone_tokenFrom read
  refine ⟨blanks ++ c :: taken, by simp, fun other ending => ?_⟩
  have alone : tokenFrom s.current.flags.ignoreSpace c (taken ++ (inside ++ other)) =
      .ok (t, inside ++ other) := by
    refine readAgain inside (')' :: after) other rfl rfl (alike_of_ending ending) ?_
    -- After a word boundary the flags are the same, so a brace begins the next sign.
    rintro rfl inner rfl
    cases signed
    cases stepped
    exact skipBlanks_ne_nil_of_endsBy ends
  have passed : skipBlanks s.current.flags.ignoreSpace
      ((blanks ++ c :: taken) ++ (inside ++ other)) = c :: (taken ++ (inside ++ other)) := by
    rw [List.append_assoc]
    exact skippedAgain _
  rw [next_of_cons passed alone, signed]
  rfl

/-- What is documented of engines holds of the tool's own. -/
theorem documented : Documented Regex lexicon where
  caret rest := by
    rw [← meaning_textStart]
    exact next_solid (c := '^') (t := .lineStart) (by decide) (by decide) rfl
  dollar rest := by
    rw [← meaning_textEnd]
    exact next_solid (c := '$') (t := .lineEnd) (by decide) (by decide) rfl
  group := next_group
  parenthesis _ _ := next_solid (c := ')') (t := .groupClose) (by decide) (by decide) rfl
  nil flags := next_of_nil (skipBlanks_nil flags.ignoreSpace)
  closing := exists_blanks_closing
  enclosed := exists_front_enclosed
  search := exists_writes_of_parse?
  recognizes _ := recognizes_of_valid

end TrustSchema.Regex
