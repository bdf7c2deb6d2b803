import TrustSchema.Text.Blank

/-!
White space and comments in expressions. Under the flag `x` they are passed over between tokens, and
between the characters of a token that is written with several of them.
-/

namespace TrustSchema.Regex

/-- The text without leading white space and comments, if those are passed over. -/
def skipBlanks (ignoreSpace : Bool) (text : Text) : Text :=
  if ignoreSpace then skip false text else text
where
  skip (inComment : Bool) : Text → Text
    | [] => []
    | c :: rest =>
      if inComment then skip (c != '\n') rest
      else if Text.isBlank c then skip false rest
      else if c = '#' then skip true rest
      else c :: rest

theorem skipBlanks_length (ignoreSpace : Bool) (text : Text) :
    (skipBlanks ignoreSpace text).length ≤ text.length := by
  have inner : ∀ inComment, (skipBlanks.skip inComment text).length ≤ text.length := by
    induction text with
    | nil => simp [skipBlanks.skip]
    | cons c rest ih =>
      intro inComment
      simp only [skipBlanks.skip]
      split
      · exact Nat.le_succ_of_le (ih _)
      · split
        · exact Nat.le_succ_of_le (ih _)
        · split
          · exact Nat.le_succ_of_le (ih _)
          · exact Nat.le_refl _
  unfold skipBlanks
  split
  · exact inner false
  · exact Nat.le_refl _

/-- The characters up to the first one that fails a test, where blanks before each of them are
passed over, and the text from there. -/
def takeWhileSpaced (ignoreSpace : Bool) (p : Char → Bool) (text : Text) : Text × Text :=
  match _skipped : skipBlanks ignoreSpace text with
  | [] => ([], [])
  | c :: rest =>
    if p c then
      let (more, after) := takeWhileSpaced ignoreSpace p rest
      (c :: more, after)
    else ([], c :: rest)
termination_by text.length
decreasing_by
  have := skipBlanks_length ignoreSpace text
  simp only [_skipped, List.length_cons] at this
  omega

theorem takeWhileSpaced_length (ignoreSpace : Bool) (p : Char → Bool) (text : Text) :
    (takeWhileSpaced ignoreSpace p text).2.length ≤ text.length := by
  fun_induction takeWhileSpaced ignoreSpace p text with
  | case1 => exact Nat.zero_le _
  | case2 text c rest skipped _ more after read ih =>
    have blanks := skipBlanks_length ignoreSpace text
    simp only [skipped, read, List.length_cons] at blanks ih ⊢
    omega
  | case3 text c rest skipped =>
    rw [← skipped]
    exact skipBlanks_length ignoreSpace text

/-- The characters before the first `stop` and the text after it, if `stop` occurs. Blanks before
each character are passed over. -/
def cutSpaced (ignoreSpace : Bool) (stop : Char) (text : Text) : Option (Text × Text) :=
  match takeWhileSpaced ignoreSpace (· != stop) text with
  | (before, _ :: after) => some (before, after)
  | (_, []) => none

theorem cutSpaced_length {ignoreSpace : Bool} {stop : Char} {text before after : Text}
    (cut : cutSpaced ignoreSpace stop text = some (before, after)) :
    after.length < text.length := by
  have shorter := takeWhileSpaced_length ignoreSpace (· != stop) text
  unfold cutSpaced at cut
  split at cut
  next read =>
    cases cut
    simp only [read, List.length_cons] at shorter
    omega
  next => cases cut

/-- A number of characters, where blanks before each of them are passed over, and the text after
them. -/
def takeSpaced (ignoreSpace : Bool) : Nat → Text → Option (Text × Text)
  | 0, text => some ([], text)
  | count + 1, text =>
    match skipBlanks ignoreSpace text with
    | [] => none
    | c :: rest =>
      (takeSpaced ignoreSpace count rest).map fun (more, after) => (c :: more, after)

theorem takeSpaced_length {ignoreSpace : Bool} {count : Nat} {text front after : Text}
    (taken : takeSpaced ignoreSpace count text = some (front, after)) :
    after.length ≤ text.length := by
  induction count generalizing text front with
  | zero =>
    cases taken
    exact Nat.le_refl _
  | succ count ih =>
    have blanks := skipBlanks_length ignoreSpace text
    rw [takeSpaced] at taken
    split at taken
    next => cases taken
    next skipped =>
      obtain ⟨⟨more, later⟩, inner, same⟩ := Option.map_eq_some_iff.mp taken
      cases same
      have := ih inner
      rw [skipped, List.length_cons] at blanks
      omega

end TrustSchema.Regex
