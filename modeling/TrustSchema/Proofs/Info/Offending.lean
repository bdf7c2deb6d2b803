import TrustSchema.Proofs.Info.Nesting
import TrustSchema.Proofs.Text.Items

/-!
The token at which the builder stops. It is the first one that no section has there: the tokens
before it are the beginning of some section, and with it they are the beginning of none. What is
wrong is told from the tokens before it, without the builder.
-/

namespace TrustSchema.Info

/-- Some section begins with the tokens. -/
def Viable (written : List Token) : Prop :=
  ∃ more tree, SectionTokens 0 (written ++ more) tree

/-- What is wrong with a token after the tokens `before`. -/
inductive Offends (before : List Token) : Token → Fault → Prop
  | unmatchedClose : nesting before = 0 → Offends before .blockClose .unmatchedClose
  | blockWithoutKey : ¬EndsWithEntry before → Offends before .blockOpen .blockWithoutKey
  | tooDeep : EndsWithEntry before → nesting before = maxDepth → Offends before .blockOpen .tooDeep
  | unexpectedWord {front : List Token} {key value text : Text} :
      before = front ++ words key (some value) → ¬EndsWithWord front →
      Offends before (.word text) (.unexpectedWord text key)

/-- Why the tokens of a text are refused, and the line that is told: for the first of them that no
section has there, on the line of that token, or for a block that is open at the end, on the line of
the last token. -/
inductive Refused (located : List Located) (e : SyntaxError) : Prop
  | token {front back : List Located} {t : Located} :
      located = front ++ t :: back → Viable (front.map Located.token) →
      ¬Viable (front.map Located.token ++ [t.token]) →
      Offends (front.map Located.token) t.token e.fault → e.line = t.line → Refused located e
  | openBlock {last : Located} :
      Viable (located.map Located.token) → 0 < nesting (located.map Located.token) →
      e.fault = .unterminatedBlock → located.getLast? = some last → e.line = last.line →
      Refused located e

/-- What the last tokens of a front are when an entry waits for more: its words, as long as no line
has ended. -/
def Waiting (written : List Token) : Option Pending → Prop
  | some ⟨key, value, true⟩ => ∃ front, written = front ++ words key value ∧ ¬EndsWithWord front
  | _ => ¬EndsWithWord written

theorem endsWithWord_concat_iff (front : List Token) (t : Token) :
    EndsWithWord (front ++ [t]) ↔ ∃ text, t = .word text := by
  constructor
  · rintro ⟨front', text, same⟩
    have last := (List.append_inj' same rfl).2
    exact ⟨text, (List.cons.inj last).1⟩
  · rintro ⟨text, rfl⟩
    exact ⟨front, text, rfl⟩

namespace Builder

theorem waiting_of_step {b b' : Builder} {t : Located} {written : List Token}
    (waiting : Waiting written b.pending) (run : b.step t = .ok b') :
    Waiting (written ++ [t.token]) b'.pending := by
  obtain ⟨outer, entries, pending⟩ := b
  obtain ⟨token, line⟩ := t
  have settled (solid : ∀ text, token ≠ .word text) : ¬EndsWithWord (written ++ [token]) := by
    rw [endsWithWord_concat_iff]
    rintro ⟨text, same⟩
    exact solid text same
  cases token with
  | lineEnd =>
    cases run
    cases pending <;> exact settled (by simp)
  | word text =>
    rcases pending with _ | ⟨key, value, sameLine⟩
    · cases run
      exact ⟨written, rfl, waiting⟩
    cases sameLine with
    | false =>
      -- A line has ended, so the word is the key of another entry.
      cases run
      exact ⟨written, rfl, waiting⟩
    | true =>
      cases value with
      | none =>
        cases run
        obtain ⟨front, rfl, apart⟩ := waiting
        exact ⟨front, by simp [words], apart⟩
      | some value => cases run
  | blockOpen =>
    cases pending with
    | none => cases run
    | some p =>
      simp only [step] at run
      split at run
      next => cases run
      next =>
        cases run
        exact settled (by simp)
  | blockClose =>
    cases outer with
    | nil => cases run
    | cons block outer =>
      cases run
      exact settled (by simp)

theorem waiting_of_feed {b : Builder} {written : List Token} (run : start.feed written = .ok b) :
    Waiting written b.pending := by
  induction written using List.reverseRecOn generalizing b with
  | nil =>
    cases run
    rintro ⟨front, text, same⟩
    exact absurd same.symm (List.append_ne_nil_of_right_ne_nil _ (List.cons_ne_nil _ _))
  | append_singleton front t ih =>
    rw [feed_concat] at run
    obtain ⟨middle, before, last⟩ := Text.ok_of_bind run
    exact waiting_of_step (ih before) last

/-- A run does not depend on the lines of the tokens. -/
theorem feed_of_run {b b' : Builder} {located : List Located}
    (run : located.foldlM step b = .ok b') : b.feed (located.map Located.token) = .ok b' := by
  have tokens : located.map Located.token =
      ((located.map Located.token).map fun t => (⟨t, 0⟩ : Located)).map Located.token := by simp
  have same := verdict_run b tokens
  rw [run] at same
  cases fed : b.feed (located.map Located.token) with
  | error e => cases same.trans (congrArg verdict fed)
  | ok other =>
    cases same.trans (congrArg verdict fed)
    rfl

/-! ### Fronts of sections -/

/-- Whatever was read, closing the open blocks completes it. -/
theorem exists_completes (b : Builder) : ∃ rest tree, b.Completes rest tree := by
  obtain ⟨outer, entries, pending⟩ := b
  -- One closing brace leaves one open block less.
  induction outer generalizing entries pending with
  | nil => exact ⟨[], _, (finish_ok_iff ⟨[], entries, pending⟩ 0 _).mp rfl⟩
  | cons block outer ih =>
    obtain ⟨rest, tree, completes⟩ := ih _ none
    exact ⟨.blockClose :: rest, tree, (completes_blockClose rest tree).mpr completes⟩

/-- The builder takes exactly the fronts of sections. -/
theorem viable_iff (written : List Token) : Viable written ↔ ∃ b, start.feed written = .ok b := by
  simp only [Viable, ← completes_start_iff, completes_append_iff]
  constructor
  · rintro ⟨more, tree, b, run, -⟩
    exact ⟨b, run⟩
  · rintro ⟨b, run⟩
    obtain ⟨more, tree, completes⟩ := exists_completes b
    exact ⟨more, tree, b, run, completes⟩

theorem not_viable_concat {b : Builder} {before : List Token} {t : Located} {e : SyntaxError}
    (run : start.feed before = .ok b) (refused : b.step t = .error e) :
    ¬Viable (before ++ [t.token]) := by
  have tokens : t.token = (⟨t.token, 0⟩ : Located).token := rfl
  have same := verdict_step b tokens
  rw [viable_iff, feed_concat, run]
  rintro ⟨b', fed⟩
  rw [refused] at same
  cases same.trans (congrArg verdict fed)

/-! ### Where a run stops -/

theorem offends_of_step {b : Builder} {before : List Token} {t : Located} {e : SyntaxError}
    (run : start.feed before = .ok b) (refused : b.step t = .error e) :
    e.line = t.line ∧ Offends before t.token e.fault := by
  have waiting := waiting_of_feed run
  have depth : (b.outer.length : Int) = 0 + nesting before := nesting_of_feed run
  have within : b.outer.length ≤ maxDepth := depth_of_run run (Nat.zero_le _)
  have pending := pending_of_feed run
  obtain ⟨outer, entries, waits⟩ := b
  obtain ⟨token, line⟩ := t
  cases token with
  | lineEnd => cases refused
  | word text =>
    rcases waits with _ | ⟨key, value, sameLine⟩
    · cases refused
    cases sameLine with
    | false => cases refused
    | true =>
      cases value with
      | none => cases refused
      | some value =>
        -- A third word: the two before it on its line are the key and its value.
        cases refused
        obtain ⟨front, spelled, apart⟩ := waiting
        exact ⟨rfl, .unexpectedWord spelled apart⟩
  | blockOpen =>
    cases waits with
    | none =>
      cases refused
      exact ⟨rfl, .blockWithoutKey fun ended => Bool.false_ne_true (pending.mpr ended)⟩
    | some p =>
      simp only [step] at refused
      split at refused
      next deep =>
        cases refused
        -- There are never more open blocks than may nest, so that here there are as many.
        change outer.length ≤ maxDepth at within
        change (outer.length : Int) = 0 + nesting before at depth
        exact ⟨rfl, .tooDeep (pending.mp rfl) (by omega)⟩
      next => cases refused
  | blockClose =>
    cases outer with
    | nil =>
      cases refused
      exact ⟨rfl, .unmatchedClose (by simpa using depth.symm)⟩
    | cons block outer => cases refused

theorem exists_step_of_error {b : Builder} {located : List Located} {e : SyntaxError}
    (failed : located.foldlM step b = .error e) :
    ∃ front t back b', located = front ++ t :: back ∧ front.foldlM step b = .ok b' ∧
      b'.step t = .error e := by
  induction located generalizing b with
  | nil => cases failed
  | cons t located ih =>
    rw [List.foldlM_cons] at failed
    rcases Text.error_of_bind failed with refused | ⟨next, taken, failed⟩
    · exact ⟨[], t, located, b, rfl, rfl, refused⟩
    · obtain ⟨front, t', back, b', rfl, run, refused⟩ := ih failed
      refine ⟨t :: front, t', back, b', rfl, ?_, refused⟩
      rw [List.foldlM_cons, taken]
      exact run

end Builder

/-- Tokens are refused as `Refused` says. -/
theorem refused_of_ofTokens? {located : List Located} {e : SyntaxError}
    (failed : ofTokens? located = .error e) : Refused located e := by
  rcases Text.error_of_bind failed with stopped | ⟨b, run, unfinished⟩
  · obtain ⟨front, t, back, b, rfl, run, refused⟩ := Builder.exists_step_of_error stopped
    have fed := Builder.feed_of_run run
    obtain ⟨line, offends⟩ := Builder.offends_of_step fed refused
    exact .token rfl ((Builder.viable_iff _).mpr ⟨b, fed⟩) (Builder.not_viable_concat fed refused)
      offends line
  · have fed := Builder.feed_of_run run
    have depth : (b.outer.length : Int) = 0 + nesting (located.map Located.token) :=
      Builder.nesting_of_feed fed
    unfold Builder.finish at unfinished
    split at unfinished
    next => cases unfinished
    next block outer blocks =>
      cases unfinished
      rw [blocks, List.length_cons] at depth
      -- Without tokens no block is open, so there is a last one.
      cases final : located.getLast? with
      | none =>
        obtain rfl := List.getLast?_eq_none_iff.mp final
        exact absurd depth (by simp [nesting]; omega)
      | some last =>
        exact .openBlock ((Builder.viable_iff _).mpr ⟨b, fed⟩) (by omega) rfl final
          (by rw [lastLine, final]; rfl)

end TrustSchema.Info
