import TrustSchema.Regex.Token

/-!
What the readers of an expression look at. A reader takes the beginning of a text, and of what
follows it looks at one character at most, which it does not tell from the end of the text if that
is a closing parenthesis. So what stands in a group is read as it is alone.
-/

namespace TrustSchema.Regex

/-- One text may stand for another where readers look no further than the first character. The end
of the text may stand for a closing parenthesis. -/
def Alike (other text : Text) : Prop :=
  other.head? = text.head? ∨ other = [] ∧ text.head? = some ')'

namespace Alike

variable {other text : Text}

theorem append (front : Text) (alike : Alike other text) :
    Alike (front ++ other) (front ++ text) := by
  cases front with
  | nil => exact alike
  | cons c front => exact .inl rfl

theorem of_ne_nil {front : Text} (some : front ≠ []) (other text : Text) :
    Alike (front ++ other) (front ++ text) := by
  cases front with
  | nil => exact absurd rfl some
  | cons c front => exact .inl rfl

theorem eq_nil (alike : Alike other []) : other = [] := by
  rcases alike with same | ⟨none, -⟩
  · exact List.head?_eq_none_iff.mp same
  · exact none

/-- A text begins with no other character than the one that it stands for. -/
theorem head?_ne {c : Char} (alike : Alike other text) (absent : text.head? ≠ some c) :
    other.head? ≠ some c := by
  rcases alike with same | ⟨rfl, -⟩
  · rwa [same]
  · exact Option.some_ne_none c ∘ Eq.symm

theorem cons {c : Char} {rest : Text} (alike : Alike other (c :: rest)) :
    other = [] ∨ ∃ after, other = c :: after := by
  rcases alike with same | ⟨rfl, -⟩
  · exact .inr (List.head?_eq_some_iff.mp same)
  · exact .inl rfl

end Alike

section

variable {α β γ : Type}

/-- A reader takes the beginning of a text, and gives the same result whatever follows. -/
def TakesAlone (read : Text → α) (result : Text → α) (text after : Text) : Prop :=
  ∃ taken, text = taken ++ after ∧ ∀ other, read (taken ++ other) = result other

/-- A reader takes the beginning of a text, and gives the same result before texts that begin
alike. -/
def Takes (read : Text → α) (result : Text → α) (text after : Text) : Prop :=
  ∃ taken, text = taken ++ after ∧
    ∀ other, Alike other after → read (taken ++ other) = result other

variable {read result : Text → α} {text after : Text}

theorem TakesAlone.takes (alone : TakesAlone read result text after) :
    Takes read result text after := by
  obtain ⟨taken, whole, same⟩ := alone
  exact ⟨taken, whole, fun other _ => same other⟩

/-- One reader after another. -/
theorem Takes.trans {next result' : Text → β} {both result'' : Text → γ} {middle : Text}
    (first : Takes read result text middle) (second : Takes next result' middle after)
    (join : ∀ t m o, Alike m middle → read t = result m → next m = result' o →
      both t = result'' o) :
    Takes both result'' text after := by
  obtain ⟨front, rfl, same⟩ := first
  obtain ⟨back, rfl, same'⟩ := second
  refine ⟨front ++ back, (List.append_assoc ..).symm, fun other alike => ?_⟩
  have nearer := alike.append back
  rw [List.append_assoc]
  exact join _ _ _ nearer (same _ nearer) (same' other alike)

/-- One reader after another that needs to see nothing of what follows. -/
theorem Takes.transAlone {next result' : Text → β} {both result'' : Text → γ} {middle : Text}
    (first : Takes read result text middle) (second : TakesAlone next result' middle after)
    (begins : next [] ≠ result' [])
    (join : ∀ t m o, Alike m middle → read t = result m → next m = result' o →
      both t = result'' o) :
    TakesAlone both result'' text after := by
  obtain ⟨front, rfl, same⟩ := first
  obtain ⟨back, rfl, same'⟩ := second
  have some : back ≠ [] := by
    rintro rfl
    exact begins (same' [])
  refine ⟨front ++ back, (List.append_assoc ..).symm, fun other => ?_⟩
  have nearer := Alike.of_ne_nil some other after
  rw [List.append_assoc]
  exact join _ _ _ nearer (same _ nearer) (same' other)

/-- A reader that goes on over one character more needs to see nothing after that. -/
theorem Takes.over {both result' : Text → β} {c : Char}
    (first : Takes read result text (c :: after))
    (join : ∀ t o, read t = result (c :: o) → both t = result' o) :
    TakesAlone both result' text after := by
  obtain ⟨taken, rfl, same⟩ := first
  refine ⟨taken ++ [c], by simp, fun other => ?_⟩
  rw [List.append_assoc]
  exact join _ _ (same (c :: other) (.inl rfl))

theorem TakesAlone.cons {both result' : Text → β} {c : Char}
    (first : TakesAlone read result text after)
    (join : ∀ t o, read t = result o → both (c :: t) = result' o) :
    TakesAlone both result' (c :: text) after := by
  obtain ⟨taken, rfl, same⟩ := first
  exact ⟨c :: taken, rfl, fun other => join _ _ (same other)⟩

theorem Takes.cons {both result' : Text → β} {c : Char} (first : Takes read result text after)
    (join : ∀ t o, read t = result o → both (c :: t) = result' o) :
    Takes both result' (c :: text) after := by
  obtain ⟨taken, rfl, same⟩ := first
  exact ⟨c :: taken, rfl, fun other alike => join _ _ (same other alike)⟩

end

/-! ### Blanks and counts -/

theorem takes_skipBlanks (ignoreSpace : Bool) (text : Text) :
    Takes (skipBlanks ignoreSpace) id text (skipBlanks ignoreSpace text) := by
  have inner : ∀ inComment, Takes (skipBlanks.skip inComment) id text
      (skipBlanks.skip inComment text) := by
    induction text with
    | nil =>
      intro inComment
      refine ⟨[], rfl, fun other alike => ?_⟩
      rw [alike.eq_nil]
      rfl
    | cons c rest ih =>
      intro inComment
      rw [skipBlanks.skip]
      split
      next comment =>
        exact (ih _).cons fun t o same => by
          rw [skipBlanks.skip, if_pos comment, same]
      next solid =>
        split
        next blank =>
          exact (ih _).cons fun t o same => by
            rw [skipBlanks.skip, if_neg solid, if_pos blank, same]
        next printed =>
          split
          next sharp =>
            exact (ih _).cons fun t o same => by
              rw [skipBlanks.skip, if_neg solid, if_neg printed, if_pos sharp, same]
          next other =>
            refine ⟨[], rfl, fun text alike => ?_⟩
            rcases alike.cons with rfl | ⟨after, rfl⟩
            · rfl
            · exact (if_neg solid).trans ((if_neg printed).trans (if_neg other))
  cases ignoreSpace with
  | true => exact inner false
  | false => exact ⟨[], rfl, fun other _ => rfl⟩

/-- Blanks before a character are passed over whatever comes after it. -/
theorem exists_blanks {ignoreSpace : Bool} {text rest : Text} {c : Char}
    (skipped : skipBlanks ignoreSpace text = c :: rest) :
    ∃ blanks, text = blanks ++ c :: rest ∧
      ∀ other, skipBlanks ignoreSpace (blanks ++ c :: other) = c :: other := by
  obtain ⟨blanks, whole, same⟩ := takes_skipBlanks ignoreSpace text
  rw [skipped] at whole same
  exact ⟨blanks, whole, fun other => same (c :: other) (.inl rfl)⟩

theorem skipBlanks_nil (ignoreSpace : Bool) : skipBlanks ignoreSpace [] = [] := by
  cases ignoreSpace with
  | _ => rfl

theorem takeWhileSpaced_nil {ignoreSpace : Bool} {p : Char → Bool} {text : Text}
    (skipped : skipBlanks ignoreSpace text = []) :
    takeWhileSpaced ignoreSpace p text = ([], []) := by
  rw [takeWhileSpaced]
  split
  next => rfl
  next found => cases skipped.symm.trans found

theorem takeWhileSpaced_cons {ignoreSpace : Bool} {p : Char → Bool} {text rest : Text} {c : Char}
    (skipped : skipBlanks ignoreSpace text = c :: rest) :
    takeWhileSpaced ignoreSpace p text =
      if p c then
        (c :: (takeWhileSpaced ignoreSpace p rest).1, (takeWhileSpaced ignoreSpace p rest).2)
      else ([], c :: rest) := by
  rw [takeWhileSpaced]
  split
  next none => cases skipped.symm.trans none
  next found =>
    cases skipped.symm.trans found
    rfl

theorem takes_takeWhileSpaced (ignoreSpace : Bool) (p : Char → Bool) (text : Text) :
    Takes (takeWhileSpaced ignoreSpace p) (fun t => ((takeWhileSpaced ignoreSpace p text).1, t))
      text (takeWhileSpaced ignoreSpace p text).2 := by
  fun_induction takeWhileSpaced ignoreSpace p text with
  | case1 text skipped =>
    obtain ⟨blanks, whole, same⟩ := takes_skipBlanks ignoreSpace text
    rw [skipped] at whole same
    refine ⟨blanks, whole, fun other alike => ?_⟩
    rw [alike.eq_nil]
    exact takeWhileSpaced_nil (same [] (.inl rfl))
  | case2 text c rest skipped passed more after read ih =>
    rw [read] at ih
    obtain ⟨blanks, rfl, again⟩ := exists_blanks skipped
    obtain ⟨taken, whole, same⟩ := ih
    refine ⟨blanks ++ c :: taken, by simp [whole], fun other alike => ?_⟩
    rw [List.append_assoc, List.cons_append, takeWhileSpaced_cons (again _), if_pos passed,
      same other alike]
  | case3 text c rest skipped failed =>
    obtain ⟨blanks, whole, same⟩ := takes_skipBlanks ignoreSpace text
    rw [skipped] at whole same
    refine ⟨blanks, whole, fun other alike => ?_⟩
    have begun := same other alike
    rcases alike.cons with rfl | ⟨after, rfl⟩
    · exact takeWhileSpaced_nil begun
    · exact (takeWhileSpaced_cons begun).trans (if_neg failed)

theorem takeWhileSpaced_of_cutSpaced {ignoreSpace : Bool} {stop : Char} {text before after : Text}
    (cut : cutSpaced ignoreSpace stop text = some (before, after)) :
    ∃ c, takeWhileSpaced ignoreSpace (· != stop) text = (before, c :: after) := by
  unfold cutSpaced at cut
  split at cut
  next c _ read =>
    cases cut
    exact ⟨c, read⟩
  next => cases cut

theorem takesAlone_cutSpaced {ignoreSpace : Bool} {stop : Char} {text before after : Text}
    (cut : cutSpaced ignoreSpace stop text = some (before, after)) :
    TakesAlone (cutSpaced ignoreSpace stop) (fun t => some (before, t)) text after := by
  obtain ⟨c, read⟩ := takeWhileSpaced_of_cutSpaced cut
  have taken := takes_takeWhileSpaced ignoreSpace (· != stop) text
  rw [read] at taken
  exact taken.over fun t o same => by simp only [cutSpaced, same]

/-- What is cut off begins with the first character that is no blank. -/
theorem head?_skipBlanks_of_cutSpaced {ignoreSpace : Bool} {stop c : Char}
    {text before after : Text} (cut : cutSpaced ignoreSpace stop text = some (c :: before, after)) :
    (skipBlanks ignoreSpace text).head? = some c := by
  obtain ⟨_, read⟩ := takeWhileSpaced_of_cutSpaced cut
  cases skipped : skipBlanks ignoreSpace text with
  | nil =>
    rw [takeWhileSpaced_nil skipped] at read
    cases read
  | cons d rest =>
    rw [takeWhileSpaced_cons skipped] at read
    split at read
    next => exact congrArg List.head? (Prod.mk.inj read).1
    next => cases (Prod.mk.inj read).1

theorem takesAlone_takeSpaced {ignoreSpace : Bool} {count : Nat} {text front after : Text}
    (taken : takeSpaced ignoreSpace count text = some (front, after)) :
    TakesAlone (takeSpaced ignoreSpace count) (fun t => some (front, t)) text after := by
  induction count generalizing text front with
  | zero =>
    cases taken
    exact ⟨[], rfl, fun other => rfl⟩
  | succ count ih =>
    rw [takeSpaced] at taken
    split at taken
    next => cases taken
    next c rest skipped =>
      obtain ⟨⟨more, later⟩, inner, same⟩ := Option.map_eq_some_iff.mp taken
      cases same
      obtain ⟨blanks, rfl, again⟩ := exists_blanks skipped
      obtain ⟨next, rfl, same⟩ := ih inner
      refine ⟨blanks ++ c :: next, by simp, fun other => ?_⟩
      rw [List.append_assoc, List.cons_append, takeSpaced, again]
      simp only [same]
      rfl

/-- A sign that may stand at the beginning of a text. -/
theorem takes_sign {read : Text → Bool × Text} {sign : Char}
    (present : ∀ t, read (sign :: t) = (true, t))
    (absent : ∀ t, t.head? ≠ some sign → read t = (false, t)) (text : Text) :
    Takes read (fun t => ((read text).1, t)) text (read text).2 := by
  by_cases begins : text.head? = some sign
  · obtain ⟨rest, rfl⟩ := List.head?_eq_some_iff.mp begins
    rw [present]
    exact ⟨[sign], rfl, fun other _ => present other⟩
  · rw [absent text begins]
    exact ⟨[], rfl, fun other alike => absent other (alike.head?_ne begins)⟩

theorem takes_questionMark (text : Text) :
    Takes questionMark (fun t => ((questionMark text).1, t)) text (questionMark text).2 := by
  have present (t : Text) : questionMark ('?' :: t) = (true, t) := rfl
  refine takes_sign present (fun t absent => ?_) text
  unfold questionMark
  split
  next => exact absurd rfl absent
  next => rfl

theorem takes_repetitionToken {bounds : Bounds} {text after : Text} {t : Token}
    (read : repetitionToken bounds text = (t, after)) :
    Takes (repetitionToken bounds) (fun u => (t, u)) text after := by
  obtain ⟨taken, whole, same⟩ := takes_questionMark text
  cases read
  refine ⟨taken, whole, fun other alike => ?_⟩
  rw [repetitionToken, same other alike]
  rfl

theorem takeWhile_append_of_alike {p : Char → Bool} {text other : Text}
    (alike : Alike other (text.dropWhile p)) :
    (text.takeWhile p ++ other).takeWhile p = text.takeWhile p ∧
      (text.takeWhile p ++ other).dropWhile p = other := by
  have all : ∀ c ∈ text.takeWhile p, p c = true := fun c member =>
    List.all_eq_true.mp List.all_takeWhile c member
  have stopped : other.takeWhile p = [] ∧ other.dropWhile p = other := by
    cases kept : text.dropWhile p with
    | nil =>
      rw [kept] at alike
      rw [alike.eq_nil]
      exact ⟨rfl, rfl⟩
    | cons c rest =>
      have no := List.head_dropWhile_not p (l := text) (by rw [kept]; exact List.cons_ne_nil c rest)
      simp only [kept, List.head_cons] at no
      rw [kept] at alike
      rcases alike.cons with rfl | ⟨after, rfl⟩
      · exact ⟨rfl, rfl⟩
      · have no' : ¬p c = true := by rw [no]; exact Bool.false_ne_true
        exact ⟨List.takeWhile_cons_of_neg no', List.dropWhile_cons_of_neg no'⟩
  rw [List.takeWhile_append_of_pos all, List.dropWhile_append_of_pos all, stopped.1, stopped.2,
    List.append_nil]
  exact ⟨rfl, rfl⟩

theorem takes_dropWhile (p : Char → Bool) (text : Text) :
    Takes (List.dropWhile p) id text (text.dropWhile p) :=
  ⟨text.takeWhile p, List.takeWhile_append_dropWhile.symm,
    fun _ alike => (takeWhile_append_of_alike alike).2⟩

theorem takes_count {ignoreSpace : Bool} {text after : Text} {n : Option Nat}
    (read : count ignoreSpace text = .ok (n, after)) :
    Takes (count ignoreSpace) (fun t => .ok (n, t)) text after := by
  let digits (t : Text) := takeWhileSpaced ignoreSpace Char.isDigit (t.dropWhile Text.isBlank)
  have first : Takes digits (fun t => ((digits text).1, t)) text (digits text).2 :=
    (takes_dropWhile Text.isBlank text).trans (takes_takeWhileSpaced ignoreSpace Char.isDigit _)
      fun t m o _ skipped found => by
        simp only [digits, skipped]
        exact found
  have whole : Takes (fun t => ((digits t).1, (digits t).2.dropWhile Text.isBlank))
      (fun t => ((digits text).1, t)) text after := by
    rw [count_snd read]
    exact first.trans (takes_dropWhile Text.isBlank _) fun t m o _ found skipped => by
      simp only [found, skipped]
      rfl
  obtain ⟨taken, same, again⟩ := whole
  refine ⟨taken, same, fun other alike => ?_⟩
  obtain ⟨front, rest⟩ := Prod.mk.inj (again other alike)
  change (digits (taken ++ other)).1 = (digits text).1 at front
  simp only [count, digits] at read front rest ⊢
  simp only [front, rest]
  -- The digits are the same, and so is what they say.
  split at read
  next none => rw [if_pos none]; cases read; rfl
  next some =>
    rw [if_neg some]
    split at read
    next value =>
      split at read
      next small => cases read; exact if_pos small
      next => cases read
    next => cases read

theorem count_nil (ignoreSpace : Bool) : count ignoreSpace [] = .ok (none, []) := by
  have none : takeWhileSpaced ignoreSpace Char.isDigit [] = ([], []) :=
    takeWhileSpaced_nil (skipBlanks_nil ignoreSpace)
  simp only [count, List.dropWhile_nil, none]
  rfl

theorem takesAlone_greatestCount {ignoreSpace : Bool} {least : Nat} {text after : Text}
    {bounds : Bounds} (read : greatestCount ignoreSpace least text = .ok (bounds, after)) :
    TakesAlone (greatestCount ignoreSpace least) (fun t => .ok (bounds, t)) text after := by
  unfold greatestCount at read
  split at read
  · cases read
  · cases read
  next greatest after' counted =>
    split at read
    next between =>
      cases read
      refine (takes_count counted).over fun t o same => ?_
      simp only [greatestCount, same, between]
    next => cases read
  · cases read

/-- The bounds of a count from the text after its comma. -/
def upperBounds (ignoreSpace : Bool) (least : Nat) (text : Text) : Except Fault (Bounds × Text) :=
  match text with
  | '\x7d' :: after => .ok (.atLeast least, after)
  | rest => greatestCount ignoreSpace least rest

theorem takesAlone_upperBounds {ignoreSpace : Bool} {least : Nat} {rest after : Text}
    {bounds : Bounds}
    (read : upperBounds ignoreSpace least (skipBlanks ignoreSpace rest) = .ok (bounds, after)) :
    TakesAlone (fun t => upperBounds ignoreSpace least (skipBlanks ignoreSpace t))
      (fun t => .ok (bounds, t)) rest after := by
  have blanks := takes_skipBlanks ignoreSpace rest
  unfold upperBounds at read
  split at read
  next after' brace =>
    cases read
    rw [brace] at blanks
    exact blanks.over fun t o skipped => by rw [skipped]; rfl
  next absent =>
    have begins : greatestCount ignoreSpace least [] ≠ .ok (bounds, []) := by
      rw [greatestCount, count_nil]
      exact fun failed => by cases failed
    refine blanks.transAlone (takesAlone_greatestCount read) begins
      fun t m o alike skipped found => ?_
    -- No brace comes where a greatest count does.
    have absent' : m.head? ≠ some '\x7d' := alike.head?_ne fun present =>
      (List.head?_eq_some_iff.mp present).elim absent
    rw [skipped, id]
    unfold upperBounds
    split
    next => exact absurd rfl absent'
    next => exact found

theorem takesAlone_countedBounds {ignoreSpace : Bool} {text after : Text} {bounds : Bounds}
    (read : countedBounds ignoreSpace text = .ok (bounds, after)) :
    TakesAlone (countedBounds ignoreSpace) (fun t => .ok (bounds, t)) text after := by
  have counts {n : Option Nat} {rest : Text}
      (counted : count ignoreSpace (skipBlanks ignoreSpace text) = .ok (n, rest)) :
      Takes (fun t => count ignoreSpace (skipBlanks ignoreSpace t)) (fun t => .ok (n, t)) text
        rest :=
    (takes_skipBlanks ignoreSpace text).trans (takes_count counted)
      fun t m o _ skipped found => by rw [skipped]; exact found
  unfold countedBounds at read
  split at read
  · cases read
  next n after' counted =>
    cases read
    exact (counts counted).over fun t o same => by simp only [countedBounds, same]
  next n rest counted =>
    have upper : upperBounds ignoreSpace n (skipBlanks ignoreSpace rest) = .ok (bounds, after) :=
      read
    obtain ⟨front, rfl, same⟩ := counts counted
    obtain ⟨back, rfl, same'⟩ := takesAlone_upperBounds upper
    refine ⟨front ++ ',' :: back, by simp, fun other => ?_⟩
    have comma := same (',' :: (back ++ other)) (.inl rfl)
    simp only [List.append_assoc, List.cons_append, countedBounds, comma]
    exact same' other
  · cases read
  · cases read
  · cases read

/-! ### Groups -/

theorem takesAlone_flagList {flags last : FlagList} {colon : Bool} {text after : Text}
    (read : flagList flags text = .ok (last, colon, after)) :
    TakesAlone (flagList flags) (fun t => .ok (last, colon, t)) text after := by
  fun_induction flagList flags text with
  | case1 | case2 | case4 | case6 | case7 => cases read
  | case3 flags c rest ends complete =>
    cases read
    exact ⟨[c], rfl, fun other => (if_pos ends).trans (if_neg complete)⟩
  | case5 flags rest first _ ih =>
    exact (ih read).cons fun t o same => by
      rw [flagList, if_neg first, same]
      rfl
  | case8 flags c rest ends sign known new ih =>
    exact (ih read).cons fun t o same => by
      rw [flagList, if_neg ends, if_neg sign, if_neg known, if_neg new, same]

theorem groupStart_flags {rest after : Text} {flags : FlagList} {colon : Bool}
    (listed : flagList .start rest = .ok (flags, colon, after)) :
    groupStart ('?' :: rest) =
      if colon then .ok (.groupOpen false flags.change, after)
      else if flags.seen.isEmpty then .error .nothingToRepeat
      else .ok (.flags flags.change, after) := by
  unfold groupStart
  split
  case h_8 same =>
    cases same
    rw [listed]
  case h_9 absent => exact absurd rfl (absent rest)
  -- No flag is written as what begins the other forms.
  all_goals
    next same =>
      cases same
      cases listed

theorem groupStart_of_head?_ne {text : Text} (absent : text.head? ≠ some '?') :
    groupStart text = .ok (.groupOpen true .nothing, text) := by
  unfold groupStart
  split
  all_goals first | exact absurd rfl absent | rfl

theorem takes_groupStart {text after : Text} {t : Token} (read : groupStart text = .ok (t, after)) :
    Takes groupStart (fun u => .ok (t, u)) text after := by
  by_cases sign : text.head? = some '?'
  · unfold groupStart at read
    split at read
    all_goals try cases read
    next rest _ _ _ _ _ _ _ =>
      split at read
      next => cases read
      next flags colon later listed =>
        have flagged := takesAlone_flagList listed
        split at read
        next opens =>
          cases read
          exact (flagged.cons fun t o same => (groupStart_flags same).trans (if_pos opens)).takes
        next closes =>
          split at read
          next => cases read
          next some =>
            cases read
            exact (flagged.cons fun t o same =>
              (groupStart_flags same).trans ((if_neg closes).trans (if_neg some))).takes
    next absent => exact ((List.head?_eq_some_iff.mp sign).elim absent).elim
  · rw [groupStart_of_head?_ne sign] at read
    cases read
    exact ⟨[], rfl, fun other alike => groupStart_of_head?_ne (alike.head?_ne sign)⟩

/-! ### Escapes -/

theorem takesAlone_hexEscape {ignoreSpace : Bool} {digits : Nat} {text after : Text} {e : Escaped}
    (read : hexEscape ignoreSpace digits text = .ok (e, after)) :
    TakesAlone (hexEscape ignoreSpace digits) (fun t => .ok (e, t)) text after := by
  have blanks := takes_skipBlanks ignoreSpace text
  unfold hexEscape at read
  split at read
  next rest skipped =>
    split at read
    next inside later cut =>
      split at read
      next c character =>
        cases read
        obtain ⟨front, rfl, begun⟩ := exists_blanks skipped
        obtain ⟨taken, rfl, again⟩ := takesAlone_cutSpaced cut
        refine ⟨front ++ '\x7b' :: taken, by simp, fun other => ?_⟩
        rw [List.append_assoc, List.cons_append, hexEscape, begun]
        simp only [again, character]
      next => cases read
    next => cases read
  next rest absent =>
    split at read
    next inside later cut =>
      split at read
      next c character =>
        cases read
        obtain ⟨front, whole, begun⟩ := blanks
        obtain ⟨taken, left, again⟩ := takesAlone_takeSpaced cut
        rw [left] at begun
        refine ⟨front ++ taken, by rw [List.append_assoc, ← left]; exact whole, fun other => ?_⟩
        cases taken with
        | nil =>
          -- No digits give no character.
          have none := again []
          cases digits with
          | zero => cases none; cases character
          | succ digits =>
            rw [List.append_nil, takeSpaced, skipBlanks_nil] at none
            cases none
        | cons d more =>
          have solid : d ≠ '\x7b' := by
            rintro rfl
            exact absent _ left
          have skipped : skipBlanks ignoreSpace (front ++ (d :: more ++ other)) =
              d :: more ++ other :=
            begun _ (Alike.of_ne_nil (List.cons_ne_nil d more) _ _)
          rw [List.append_assoc, hexEscape, skipped]
          split
          next same => cases same; exact absurd rfl solid
          next => simp only [again, character]
      next => cases read
    next => cases read

/-- A word boundary reads the name of its kind, or nothing at all. -/
theorem takesAlone_boundaryEscape {ignoreSpace : Bool} {text after : Text} {e : Escaped}
    (read : boundaryEscape ignoreSpace text = .ok (e, after)) :
    TakesAlone (boundaryEscape ignoreSpace) (fun t => .ok (e, t)) text after ∨
      text = after ∧ e = .condition .wordBoundary := by
  unfold boundaryEscape at read
  split at read
  next rest =>
    split at read
    next named =>
      split at read
      next name later cut =>
        split at read
        next kind known =>
          cases read
          obtain ⟨taken, rfl, again⟩ := takesAlone_cutSpaced cut
          refine .inl ⟨'\x7b' :: taken, rfl, fun other => ?_⟩
          -- The name is not empty, so it is known by its first letter again.
          have named' : (skipBlanks ignoreSpace (taken ++ other)).head?.any isBoundaryName := by
            cases name with
            | nil => cases known
            | cons c name =>
              rw [head?_skipBlanks_of_cutSpaced cut] at named
              rw [head?_skipBlanks_of_cutSpaced (again other)]
              exact named
          simp only [List.cons_append, boundaryEscape, if_pos named', again, known]
        next => cases read
      next => cases read
    next plain =>
      split at read
      next => cases read
      next => cases read; exact .inr ⟨rfl, rfl⟩
  next => cases read; exact .inr ⟨rfl, rfl⟩

/-- A word boundary without a name is read alike within a group and at the end of a text, if more
than blanks stand in the group after a brace. -/
theorem boundaryEscape_bare {ignoreSpace : Bool} {front closed other : Text}
    (read : boundaryEscape ignoreSpace (front ++ closed) =
      .ok (.condition .wordBoundary, front ++ closed))
    (alike : Alike other closed) (closes : closed.head? = some ')')
    (brace : ∀ inner, front = '\x7b' :: inner → skipBlanks ignoreSpace inner ≠ []) :
    boundaryEscape ignoreSpace (front ++ other) =
      .ok (.condition .wordBoundary, front ++ other) := by
  cases front with
  | nil =>
    rcases alike with same | ⟨rfl, -⟩
    · obtain ⟨z, rfl⟩ := List.head?_eq_some_iff.mp (same.trans closes)
      rfl
    · rfl
  | cons c front =>
    by_cases begins : c = '\x7b'
    · subst begins
      cases skipped : skipBlanks ignoreSpace front with
      | nil => exact absurd skipped (brace front rfl)
      | cons d rest =>
        obtain ⟨blanks, rfl, again⟩ := exists_blanks skipped
        have plain : isBoundaryName d = false := by
          rw [Bool.eq_false_iff]
          intro named
          simp only [List.cons_append, List.append_assoc, boundaryEscape, again, List.head?_cons,
            Option.any_some, if_pos named] at read
          split at read
          next cut =>
            -- A name would have been taken off the text.
            have shorter := cutSpaced_length cut
            split at read
            next =>
              cases read
              simp only [List.length_append, List.length_cons] at shorter
              omega
            next => cases read
          next => cases read
        simp [boundaryEscape, again, plain]
    · simp only [List.cons_append]
      unfold boundaryEscape
      split
      next same => cases same; exact absurd rfl begins
      next => rfl

variable [PropertyTable]

theorem takesAlone_propertyEscape {ignoreSpace negated : Bool} {text after : Text} {e : Escaped}
    (read : propertyEscape ignoreSpace negated text = .ok (e, after)) :
    TakesAlone (propertyEscape ignoreSpace negated) (fun t => .ok (e, t)) text after := by
  unfold propertyEscape at read
  split at read
  next => cases read
  next rest skipped =>
    split at read
    next inside later cut =>
      obtain ⟨found, known, same⟩ := Text.ok_of_map read
      cases same
      obtain ⟨front, rfl, begun⟩ := exists_blanks skipped
      obtain ⟨taken, rfl, again⟩ := takesAlone_cutSpaced cut
      refine ⟨front ++ '\x7b' :: taken, by simp, fun other => ?_⟩
      rw [List.append_assoc, List.cons_append, propertyEscape, begun]
      simp only [again, known]
      rfl
    next => cases read
  next c rest absent skipped =>
    obtain ⟨found, known, same⟩ := Text.ok_of_map read
    cases same
    obtain ⟨front, rfl, begun⟩ := exists_blanks skipped
    refine ⟨front ++ [c], by simp, fun other => ?_⟩
    rw [List.append_assoc, propertyEscape, List.singleton_append, begun]
    split
    next none => cases none
    next same => cases same; exact (absent rfl).elim
    next same => cases same; rw [known]; rfl

theorem takesAlone_escape {ignoreSpace : Bool} {text after : Text} {e : Escaped}
    (read : escape ignoreSpace text = .ok (e, after)) :
    TakesAlone (escape ignoreSpace) (fun t => .ok (e, t)) text after ∨
      text = 'b' :: after ∧ e = .condition .wordBoundary ∧
        boundaryEscape ignoreSpace after = .ok (.condition .wordBoundary, after) := by
  unfold escape at read
  split at read
  next => cases read
  next c rest =>
    split at read
    next e single =>
      cases read
      refine .inl ⟨[c], rfl, fun other => ?_⟩
      unfold escape
      simp only [List.cons_append, List.nil_append, single]
    next other =>
      have later {reader : Text → Except Fault (Escaped × Text)}
          (taken : TakesAlone reader (fun t => .ok (e, t)) rest after)
          (chosen : ∀ t, escape ignoreSpace (c :: t) = reader t) :
          TakesAlone (escape ignoreSpace) (fun t => .ok (e, t)) (c :: rest) after :=
        taken.cons fun t o same => (chosen t).trans same
      split at read
      next => exact .inl (later (takesAlone_hexEscape read) fun t => rfl)
      next => exact .inl (later (takesAlone_hexEscape read) fun t => rfl)
      next => exact .inl (later (takesAlone_hexEscape read) fun t => rfl)
      next => exact .inl (later (takesAlone_propertyEscape read) fun t => rfl)
      next => exact .inl (later (takesAlone_propertyEscape read) fun t => rfl)
      next =>
        rcases takesAlone_boundaryEscape read with taken | ⟨rfl, rfl⟩
        · exact .inl (later taken fun t => rfl)
        · exact .inr ⟨rfl, rfl, read⟩
      next => split at read <;> cases read

end TrustSchema.Regex
