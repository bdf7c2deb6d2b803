import TrustSchema.Proofs.Info.Grammar

/-!
The builder accepts what the grammar derives and nothing else. The proof follows one token at a
time: what a builder still asks of the tokens after it is stated in the grammar, and a step takes
one token off it. Besides, never more blocks are open than may nest, and neither the lines of the
tokens nor the number of line ends in a row decide anything.
-/

namespace TrustSchema.Info

/-- The tokens of an entry that may still get a value or a block. Of the line ends after it one
counts for all. -/
def Pending.begun (p : Pending) : List Token :=
  words p.key p.value ++ if p.sameLine then [] else [.lineEnd]

/-- What open blocks ask of the rest, once all entries of the innermost one are known: it is closed,
the block around it is completed and closed in turn, and nothing is left at the end. -/
def Closes : List OpenBlock → List Entry → List Token → List Entry → Prop
  | [], entries, rest, tree => rest = [] ∧ tree = entries
  | block :: outer, entries, rest, tree =>
    ∃ inside after later, rest = .blockClose :: (inside ++ after) ∧
      SectionTokens outer.length inside later ∧
      Closes outer (block.before.reverse ++ .mk block.key block.value entries :: later) after tree

theorem Closes.eq_blockClose {outer : List OpenBlock} {entries tree : List Entry} {t : Token}
    {rest : List Token} (closes : Closes outer entries (t :: rest) tree) : t = .blockClose := by
  cases outer with
  | nil => exact nomatch closes.1
  | cons block outer =>
    obtain ⟨inside, after, later, whole, -⟩ := closes
    exact (List.cons.inj whole).1

namespace Builder

/-- The tokens of the pending entry. -/
def begun (b : Builder) : List Token :=
  b.pending.elim [] Pending.begun

/-- What a builder still asks of the tokens after it to give a tree. -/
def Completes (b : Builder) (rest : List Token) (tree : List Entry) : Prop :=
  ∃ inside after later, rest = inside ++ after ∧
    SectionTokens b.outer.length (b.begun ++ inside) later ∧
    Closes b.outer (b.entries.reverse ++ later) after tree

/-! ### The pending entry -/

/-- Whatever follows a pending entry other than a word of it, its line may have ended or not. -/
theorem section_begun_iff {depth : Nat} (p : Pending) {rest : List Token}
    (proper : ¬BeginsWithWord rest) (entries : List Entry) :
    SectionTokens depth (p.begun ++ rest) entries ↔
      ∃ inner later, entries = .mk p.key (p.value.getD []) inner :: later ∧
        (inner = [] ∧ SectionTokens depth rest later ∨ BlockFollows depth rest inner later) := by
  rw [Pending.begun, List.append_assoc]
  cases p.sameLine with
  | true =>
    rw [if_pos rfl, List.nil_append, section_words_iff fun _ => proper]
    exact and_iff_right proper
  | false =>
    have ended : ¬BeginsWithWord (.lineEnd :: rest) := by simp [beginsWithWord_cons]
    rw [if_neg Bool.false_ne_true, List.singleton_append, section_words_iff fun _ => ended]
    simp only [section_lineEnd_iff, blockFollows_lineEnd_iff]
    exact and_iff_right ended

theorem section_begun_nil_iff (b : Builder) (later : List Entry) :
    SectionTokens b.outer.length b.begun later ↔
      b.entries.reverse ++ later = b.settle.entries.reverse := by
  obtain ⟨outer, entries, pending⟩ := b
  cases pending with
  | none =>
    change SectionTokens outer.length [] later ↔ entries.reverse ++ later = entries.reverse
    rw [section_nil_iff, List.append_right_eq_self]
  | some p =>
    change SectionTokens outer.length p.begun later ↔
      entries.reverse ++ later = (.mk p.key (p.value.getD []) [] :: entries).reverse
    rw [← List.append_nil p.begun, section_begun_iff p not_beginsWithWord_nil, List.reverse_cons,
      List.append_cancel_left_eq]
    constructor
    · rintro ⟨inner, later, rfl, ⟨rfl, written⟩ | follows⟩
      · rw [(section_nil_iff _ _).mp written]
      · exact absurd follows not_blockFollows_nil
    · rintro rfl
      exact ⟨[], [], rfl, .inl ⟨rfl, .nil⟩⟩

theorem exists_section_begun (b : Builder) :
    ∃ later, SectionTokens b.outer.length b.begun later ∧
      b.entries.reverse ++ later = b.settle.entries.reverse := by
  obtain ⟨later, finished⟩ : ∃ later, b.entries.reverse ++ later = b.settle.entries.reverse := by
    obtain ⟨outer, entries, pending⟩ := b
    cases pending with
    | none => exact ⟨[], List.append_nil _⟩
    | some p => exact ⟨[.mk p.key (p.value.getD []) []], List.reverse_cons.symm⟩
  exact ⟨later, (b.section_begun_nil_iff later).mpr finished, finished⟩

/-! ### One token -/

theorem completes_cons_iff {b : Builder} {t : Token} (inner : t ≠ .blockClose) (rest : List Token)
    (tree : List Entry) :
    b.Completes (t :: rest) tree ↔ ∃ inside after later, rest = inside ++ after ∧
      SectionTokens b.outer.length (b.begun ++ t :: inside) later ∧
      Closes b.outer (b.entries.reverse ++ later) after tree := by
  constructor
  · rintro ⟨inside, after, later, whole, written, closes⟩
    cases inside with
    | nil =>
      obtain rfl : t :: rest = after := whole
      exact absurd closes.eq_blockClose inner
    | cons _ inside =>
      obtain ⟨rfl, rfl⟩ := List.cons.inj whole
      exact ⟨inside, after, later, rfl, written, closes⟩
  · rintro ⟨inside, after, later, rfl, written, closes⟩
    exact ⟨t :: inside, after, later, rfl, written, closes⟩

/-- A token inside a block finishes some entries and leaves another one pending. -/
theorem completes_of_moved {outer : List OpenBlock} {entries : List Entry}
    {pending pending' : Option Pending} {t : Token} (finished : List Entry)
    (inner : t ≠ .blockClose)
    (moved : ∀ inside later,
      SectionTokens outer.length (pending.elim [] Pending.begun ++ t :: inside) later ↔
        ∃ later', later = finished ++ later' ∧
          SectionTokens outer.length (pending'.elim [] Pending.begun ++ inside) later')
    (rest : List Token) (tree : List Entry) :
    Completes ⟨outer, entries, pending⟩ (t :: rest) tree ↔
      Completes ⟨outer, finished.reverse ++ entries, pending'⟩ rest tree := by
  rw [completes_cons_iff inner]
  simp only [Completes, begun, moved, List.reverse_append, List.reverse_reverse,
    List.append_assoc]
  constructor
  · rintro ⟨inside, after, _, whole, ⟨later, rfl, written⟩, closes⟩
    exact ⟨inside, after, later, whole, written, closes⟩
  · rintro ⟨inside, after, later, whole, written, closes⟩
    exact ⟨inside, after, _, whole, ⟨later, rfl, written⟩, closes⟩

theorem completes_lineEnd (outer : List OpenBlock) (entries : List Entry)
    (pending : Option Pending) (rest : List Token) (tree : List Entry) :
    Completes ⟨outer, entries, pending⟩ (.lineEnd :: rest) tree ↔
      Completes ⟨outer, entries, pending.map ({ · with sameLine := false })⟩ rest tree := by
  refine completes_of_moved [] (by simp) ?_ rest tree
  intro inside later
  simp only [List.nil_append, exists_eq_left']
  cases pending with
  | none => exact section_lineEnd_iff _ _ _
  | some p =>
    obtain ⟨key, value, sameLine⟩ := p
    cases sameLine with
    | true => simp [Pending.begun]
    | false =>
      -- Its line has ended before, and one line end more is as good as none.
      have proper : ¬BeginsWithWord (.lineEnd :: inside) := by simp [beginsWithWord_cons]
      have proper' : ¬BeginsWithWord (.lineEnd :: .lineEnd :: inside) := by
        simp [beginsWithWord_cons]
      simp only [Option.elim, Option.map, Pending.begun, Bool.false_eq_true, if_false,
        List.append_assoc, List.singleton_append]
      rw [section_words_iff fun _ => proper, section_words_iff fun _ => proper']
      simp only [section_lineEnd_iff, blockFollows_lineEnd_iff, proper, proper']

theorem completes_firstKey {outer : List OpenBlock} {entries : List Entry} {text : Text}
    (rest : List Token) (tree : List Entry) :
    Completes ⟨outer, entries, none⟩ (.word text :: rest) tree ↔
      Completes ⟨outer, entries, some ⟨text, none, true⟩⟩ rest tree := by
  refine completes_of_moved [] (by simp) ?_ rest tree
  simp [Pending.begun, words]

theorem completes_value {outer : List OpenBlock} {entries : List Entry} {key text : Text}
    (rest : List Token) (tree : List Entry) :
    Completes ⟨outer, entries, some ⟨key, none, true⟩⟩ (.word text :: rest) tree ↔
      Completes ⟨outer, entries, some ⟨key, some text, true⟩⟩ rest tree := by
  refine completes_of_moved [] (by simp) ?_ rest tree
  simp [Pending.begun, words]

/-- A word on a later line is the next key, so that the pending entry is over. -/
theorem completes_nextKey {outer : List OpenBlock} {entries : List Entry} {key text : Text}
    {value : Option Text} (rest : List Token) (tree : List Entry) :
    Completes ⟨outer, entries, some ⟨key, value, false⟩⟩ (.word text :: rest) tree ↔
      Completes ⟨outer, .mk key (value.getD []) [] :: entries, some ⟨text, none, true⟩⟩ rest
        tree := by
  refine completes_of_moved [.mk key (value.getD []) []] (by simp) ?_ rest tree
  intro inside later
  have proper : ¬BeginsWithWord (.lineEnd :: .word text :: inside) := by
    simp [beginsWithWord_cons]
  have noBlock (inner later : List Entry) :
      ¬BlockFollows outer.length (.word text :: inside) inner later :=
    not_blockFollows_cons (by simp) (by simp)
  simp only [Option.elim, Pending.begun, Bool.false_eq_true, if_false, if_true,
    List.append_assoc, List.singleton_append]
  rw [section_words_iff fun _ => proper]
  simp only [section_lineEnd_iff, blockFollows_lineEnd_iff, noBlock, or_false]
  constructor
  · rintro ⟨-, inner, later, rfl, rfl, written⟩
    exact ⟨later, rfl, written⟩
  · rintro ⟨later, rfl, written⟩
    exact ⟨proper, [], later, rfl, rfl, written⟩

/-- The entries of a block are asked for first, and then those after it. -/
theorem completes_blockOpen {outer : List OpenBlock} {entries : List Entry} (p : Pending)
    (shallow : outer.length < maxDepth) (rest : List Token) (tree : List Entry) :
    Completes ⟨outer, entries, some p⟩ (.blockOpen :: rest) tree ↔
      Completes ⟨⟨p.key, p.value.getD [], entries⟩ :: outer, [], none⟩ rest tree := by
  have proper (inside : List Token) : ¬BeginsWithWord (.blockOpen :: inside) := by
    simp [beginsWithWord_cons]
  have notEntry (inside : List Token) (later : List Entry) :
      ¬SectionTokens outer.length (.blockOpen :: inside) later :=
    not_section_brace (.inl rfl)
  rw [completes_cons_iff (by simp)]
  simp only [begun, Option.elim, section_begun_iff p (proper _), notEntry, and_false, false_or,
    blockFollows_blockOpen_iff]
  constructor
  · rintro ⟨_, after, _, rfl, ⟨inner, later, rfl, inside, between, rfl, -, body, written⟩, closes⟩
    refine ⟨inside, .blockClose :: (between ++ after), inner, ?_, body, between, after, later, rfl,
      written, closes⟩
    rw [List.append_assoc, List.cons_append]
  · rintro ⟨inside, _, inner, rfl, body, between, after, later, rfl, written, closes⟩
    refine ⟨inside ++ .blockClose :: between, after, _, ?_, ⟨inner, later, rfl, inside, between,
      rfl, shallow, body, written⟩, closes⟩
    rw [List.append_assoc, List.cons_append]

/-- A closing brace is never inside the block that it closes. -/
theorem not_section_blockClose {depth : Nat} (b : Builder) (inside : List Token)
    (later : List Entry) : ¬SectionTokens depth (b.begun ++ .blockClose :: inside) later := by
  have brace (later : List Entry) : ¬SectionTokens depth (.blockClose :: inside) later :=
    not_section_brace (.inr rfl)
  obtain ⟨outer, entries, pending⟩ := b
  cases pending with
  | none => exact brace later
  | some p =>
    have proper : ¬BeginsWithWord (.blockClose :: inside) := by simp [beginsWithWord_cons]
    change ¬SectionTokens depth (p.begun ++ .blockClose :: inside) later
    rw [section_begun_iff p proper]
    rintro ⟨inner, later, -, ⟨-, written⟩ | follows⟩
    · exact brace later written
    · exact not_blockFollows_cons (by simp) (by simp) follows

theorem completes_blockClose {outer : List OpenBlock} {block : OpenBlock} {entries : List Entry}
    {pending : Option Pending} (rest : List Token) (tree : List Entry) :
    Completes ⟨block :: outer, entries, pending⟩ (.blockClose :: rest) tree ↔
      Completes ⟨outer, .mk block.key block.value
        (settle ⟨block :: outer, entries, pending⟩).entries.reverse :: block.before, none⟩ rest
          tree := by
  constructor
  · rintro ⟨inside, after, later, whole, written, closes⟩
    cases inside with
    | cons _ inside =>
      obtain ⟨rfl, -⟩ := List.cons.inj whole
      exact absurd written (not_section_blockClose _ inside later)
    | nil =>
      obtain rfl : _ = after := whole
      rw [List.append_nil, section_begun_nil_iff] at written
      obtain ⟨inside, after, others, same, around, closes⟩ := closes
      refine ⟨inside, after, others, (List.cons.inj same).2, around, ?_⟩
      rw [List.reverse_cons, List.append_assoc, ← written]
      exact closes
  · rintro ⟨inside, after, others, rfl, around, closes⟩
    obtain ⟨later, written, finished⟩ := exists_section_begun ⟨block :: outer, entries, pending⟩
    refine ⟨[], _, later, rfl, ?_, inside, after, others, rfl, around, ?_⟩
    · rw [List.append_nil]
      exact written
    · rw [List.reverse_cons, List.append_assoc] at closes
      rw [finished]
      exact closes

/-! ### Refused tokens -/

theorem not_completes {b : Builder} {t : Token} (inner : t ≠ .blockClose)
    (refused : ∀ inside later, ¬SectionTokens b.outer.length (b.begun ++ t :: inside) later)
    (rest : List Token) (tree : List Entry) : ¬b.Completes (t :: rest) tree := by
  rw [completes_cons_iff inner]
  rintro ⟨inside, after, later, -, written, -⟩
  exact refused inside later written

theorem not_completes_thirdWord {outer : List OpenBlock} {entries : List Entry}
    {key value text : Text} (rest : List Token) (tree : List Entry) :
    ¬Completes ⟨outer, entries, some ⟨key, some value, true⟩⟩ (.word text :: rest) tree := by
  apply not_completes (by simp)
  intro inside later
  have valued : some value = none → ¬BeginsWithWord (.word text :: inside) := nofun
  change ¬SectionTokens outer.length (words key (some value) ++ [] ++ .word text :: inside) later
  rw [List.append_nil, section_words_iff valued]
  rintro ⟨proper, -⟩
  exact proper ⟨text, inside, rfl⟩

theorem not_completes_withoutKey {outer : List OpenBlock} {entries : List Entry}
    (rest : List Token) (tree : List Entry) :
    ¬Completes ⟨outer, entries, none⟩ (.blockOpen :: rest) tree :=
  not_completes (by simp) (fun _ _ => not_section_brace (.inl rfl)) rest tree

theorem not_completes_tooDeep {outer : List OpenBlock} {entries : List Entry} (p : Pending)
    (deep : maxDepth ≤ outer.length) (rest : List Token) (tree : List Entry) :
    ¬Completes ⟨outer, entries, some p⟩ (.blockOpen :: rest) tree := by
  apply not_completes (by simp)
  intro inside later
  have proper : ¬BeginsWithWord (.blockOpen :: inside) := by simp [beginsWithWord_cons]
  change ¬SectionTokens outer.length (p.begun ++ .blockOpen :: inside) later
  rw [section_begun_iff p proper]
  rintro ⟨inner, later, -, ⟨-, written⟩ | follows⟩
  · exact not_section_brace (.inl rfl) written
  · obtain ⟨_, _, _, shallow, -⟩ := (blockFollows_blockOpen_iff _ _ _ _).mp follows
    exact absurd shallow (Nat.not_lt_of_le deep)

theorem not_completes_unmatched {entries : List Entry} {pending : Option Pending}
    (rest : List Token) (tree : List Entry) :
    ¬Completes ⟨[], entries, pending⟩ (.blockClose :: rest) tree := by
  rintro ⟨inside, after, later, whole, written, rfl, -⟩
  rw [List.append_nil] at whole
  obtain rfl := whole
  exact not_section_blockClose _ rest later written

/-! ### Runs -/

theorem completes_of_step {b b' : Builder} {t : Located} (run : b.step t = .ok b')
    (rest : List Token) (tree : List Entry) :
    b.Completes (t.token :: rest) tree ↔ b'.Completes rest tree := by
  obtain ⟨outer, entries, pending⟩ := b
  obtain ⟨token, line⟩ := t
  cases token with
  | lineEnd =>
    cases run
    exact completes_lineEnd outer entries pending rest tree
  | word text =>
    match pending, run with
    | none, run =>
      cases run
      exact completes_firstKey rest tree
    | some ⟨key, none, true⟩, run =>
      cases run
      exact completes_value rest tree
    | some ⟨key, some value, true⟩, run => cases run
    | some ⟨key, value, false⟩, run =>
      cases run
      exact completes_nextKey rest tree
  | blockOpen =>
    cases pending with
    | none => cases run
    | some p =>
      simp only [step] at run
      split at run
      next => cases run
      next shallow =>
        cases run
        exact completes_blockOpen p (Nat.lt_of_not_le shallow) rest tree
  | blockClose =>
    cases outer with
    | nil => cases run
    | cons block outer =>
      cases run
      exact completes_blockClose rest tree

theorem not_completes_of_step {b : Builder} {t : Located} {e : SyntaxError}
    (refused : b.step t = .error e) (rest : List Token) (tree : List Entry) :
    ¬b.Completes (t.token :: rest) tree := by
  obtain ⟨outer, entries, pending⟩ := b
  obtain ⟨token, line⟩ := t
  cases token with
  | lineEnd => cases refused
  | word text =>
    match pending, refused with
    | none, refused => cases refused
    | some ⟨key, none, true⟩, refused => cases refused
    | some ⟨key, some value, true⟩, _ => exact not_completes_thirdWord rest tree
    | some ⟨key, value, false⟩, refused => cases refused
  | blockOpen =>
    cases pending with
    | none => exact not_completes_withoutKey rest tree
    | some p =>
      simp only [step] at refused
      split at refused
      next deep => exact not_completes_tooDeep p deep rest tree
      next => cases refused
  | blockClose =>
    cases outer with
    | nil => exact not_completes_unmatched rest tree
    | cons block outer => cases refused

theorem finish_ok_iff (b : Builder) (line : Nat) (tree : List Entry) :
    b.finish line = .ok tree ↔ b.Completes [] tree := by
  obtain ⟨outer, entries, pending⟩ := b
  cases outer with
  | cons block outer =>
    -- An open block asks for its closing brace.
    constructor
    · intro finished
      cases finished
    · rintro ⟨inside, after, later, nothing, -, _, _, _, whole, -⟩
      obtain ⟨-, rfl⟩ := List.append_eq_nil_iff.mp nothing.symm
      cases whole
  | nil =>
    constructor
    · intro finished
      cases finished
      obtain ⟨later, written, finished⟩ := exists_section_begun ⟨[], entries, pending⟩
      refine ⟨[], [], later, rfl, ?_, rfl, finished.symm⟩
      rw [List.append_nil]
      exact written
    · rintro ⟨inside, after, later, nothing, written, rfl, rfl⟩
      obtain ⟨rfl, -⟩ := List.append_eq_nil_iff.mp nothing.symm
      rw [List.append_nil, section_begun_nil_iff] at written
      rw [written]
      rfl

theorem run_ok_iff (b : Builder) (located : List Located) (line : Nat) (tree : List Entry) :
    (located.foldlM step b >>= finish line) = .ok tree ↔
      b.Completes (located.map Located.token) tree := by
  -- A step and what it leaves to be read ask for the same trees.
  induction located generalizing b with
  | nil => exact finish_ok_iff b line tree
  | cons t located ih =>
    rw [List.foldlM_cons]
    cases run : b.step t with
    | error e =>
      constructor
      · intro finished
        cases finished
      · intro completes
        exact absurd completes (not_completes_of_step run _ tree)
    | ok b' => exact (ih b').trans (completes_of_step run _ tree).symm

theorem completes_start_iff (tokens : List Token) (tree : List Entry) :
    start.Completes tokens tree ↔ SectionTokens 0 tokens tree := by
  constructor
  · rintro ⟨inside, after, later, rfl, written, rfl, rfl⟩
    rw [List.append_nil]
    exact written
  · intro written
    exact ⟨tokens, [], tree, (List.append_nil _).symm, written, rfl, rfl⟩

/-! ### Open blocks -/

theorem depth_of_step {b b' : Builder} {t : Located} (run : b.step t = .ok b')
    (within : b.outer.length ≤ maxDepth) : b'.outer.length ≤ maxDepth := by
  unfold step at run
  split at run
  next =>
    cases run
    exact within
  next =>
    cases run
    exact within
  next p _ _ =>
    split at run
    next =>
      split at run
      next =>
        cases run
        exact within
      next => cases run
    next =>
      cases run
      simp only [settle]
      split <;> exact within
  next => cases run
  next =>
    split at run
    next => cases run
    next shallow =>
      cases run
      exact Nat.lt_of_not_le shallow
  next =>
    split at run
    next => cases run
    next block outer blocks =>
      cases run
      rw [blocks] at within
      exact Nat.le_of_succ_le within

theorem depth_of_run {b b' : Builder} {located : List Located}
    (run : located.foldlM step b = .ok b') (within : b.outer.length ≤ maxDepth) :
    b'.outer.length ≤ maxDepth := by
  induction located generalizing b with
  | nil =>
    cases run
    exact within
  | cons t located ih =>
    rw [List.foldlM_cons] at run
    obtain ⟨middle, first, run⟩ := Text.ok_of_bind run
    exact ih run (depth_of_step first within)

end Builder

/-! ### Lines -/

/-- What came out, without the line of a fault. -/
def verdict {α : Type} (outcome : Except SyntaxError α) : Except Fault α :=
  outcome.mapError SyntaxError.fault

theorem verdict_bind {α β : Type} (outcome : Except SyntaxError α)
    (next : α → Except SyntaxError β) :
    verdict (outcome >>= next) = verdict outcome >>= fun a => verdict (next a) := by
  cases outcome <;> rfl

namespace Builder

theorem verdict_step (b : Builder) {t t' : Located} (same : t.token = t'.token) :
    verdict (b.step t) = verdict (b.step t') := by
  simp only [step, same]
  split
  · rfl
  · rfl
  · split
    · split <;> rfl
    · rfl
  · rfl
  · split <;> rfl
  · split <;> rfl

theorem verdict_finish (b : Builder) (line line' : Nat) :
    verdict (b.finish line) = verdict (b.finish line') := by
  simp only [finish]
  split <;> rfl

theorem verdict_run (b : Builder) {located located' : List Located}
    (same : located.map Located.token = located'.map Located.token) :
    verdict (located.foldlM step b) = verdict (located'.foldlM step b) := by
  induction located generalizing b located' with
  | nil =>
    obtain rfl := List.map_eq_nil_iff.mp same.symm
    rfl
  | cons t located ih =>
    obtain ⟨t', more, rfl, token, tokens⟩ := List.map_eq_cons_iff.mp same.symm
    rw [List.foldlM_cons, List.foldlM_cons, verdict_bind, verdict_bind, verdict_step b token.symm]
    exact congrArg _ (funext fun b' => ih b' tokens.symm)

/-- Line ends after the first one leave the builder alone. -/
theorem run_of_lineEnds (b : Builder) {lines : List Located} {more : Nat}
    (spelled : lines.map Located.token = List.replicate (more + 1) .lineEnd) :
    lines.foldlM step b =
      .ok { b with pending := b.pending.map ({ · with sameLine := false }) } := by
  induction more generalizing b lines with
  | zero =>
    obtain ⟨⟨_, line⟩, rfl, rfl⟩ := List.map_eq_singleton_iff.mp spelled
    rfl
  | succ more ih =>
    obtain ⟨⟨_, line⟩, lines, rfl, rfl, others⟩ := List.map_eq_cons_iff.mp spelled
    have rest := ih { b with pending := b.pending.map ({ · with sameLine := false }) } others
    rw [Option.map_map] at rest
    exact rest

end Builder

theorem ofTokens?_ok_iff (located : List Located) (tree : List Entry) :
    ofTokens? located = .ok tree ↔ SectionTokens 0 (located.map Located.token) tree :=
  (Builder.run_ok_iff _ located _ tree).trans (Builder.completes_start_iff _ tree)

theorem verdict_ofTokens? {located other : List Located} {before after : List Token} {m n : Nat}
    (spelled : located.map Located.token = before ++ List.replicate (m + 1) .lineEnd ++ after)
    (spelled' : other.map Located.token = before ++ List.replicate (n + 1) .lineEnd ++ after) :
    verdict (ofTokens? located) = verdict (ofTokens? other) := by
  obtain ⟨_, tail, rfl, front, spelledTail⟩ := List.map_eq_append_iff.mp spelled
  obtain ⟨head, lines, rfl, spelledHead, spelledLines⟩ := List.map_eq_append_iff.mp front
  obtain ⟨_, tail', rfl, front', spelledTail'⟩ := List.map_eq_append_iff.mp spelled'
  obtain ⟨head', lines', rfl, spelledHead', spelledLines'⟩ := List.map_eq_append_iff.mp front'
  have sameHead := fun b => Builder.verdict_run b (spelledHead.trans spelledHead'.symm)
  have sameTail := fun b => Builder.verdict_run b (spelledTail.trans spelledTail'.symm)
  simp only [ofTokens?, List.foldlM_append, verdict_bind, sameHead, sameTail,
    Builder.run_of_lineEnds _ spelledLines, Builder.run_of_lineEnds _ spelledLines',
    Builder.verdict_finish _ (lastLine _) 0]

/-- A sequence of tokens writes the tree that the grammar derives from the whole of it at depth
zero. There is no more than one, and a sequence from which none is derived is an error. At no time
are more blocks open than may nest; and a run of line ends does what any other run does. -/
theorem ofTokens?_grammar (located : List Located) :
    (∀ tree, ofTokens? located = .ok tree ↔ SectionTokens 0 (located.map Located.token) tree) ∧
    (∀ tree tree', SectionTokens 0 (located.map Located.token) tree →
      SectionTokens 0 (located.map Located.token) tree' → tree = tree') ∧
    ((¬∃ tree, SectionTokens 0 (located.map Located.token) tree) ↔
      ∃ e, ofTokens? located = .error e) ∧
    (∀ read b, read <+: located → read.foldlM Builder.step Builder.start = .ok b →
      b.outer.length ≤ maxDepth) ∧
    (∀ other before after m n,
      located.map Located.token = before ++ List.replicate (m + 1) .lineEnd ++ after →
      other.map Located.token = before ++ List.replicate (n + 1) .lineEnd ++ after →
      verdict (ofTokens? located) = verdict (ofTokens? other)) := by
  refine ⟨ofTokens?_ok_iff located, ?_, ?_, ?_, fun _ _ _ _ _ => verdict_ofTokens?⟩
  · intro tree tree' first second
    rw [← ofTokens?_ok_iff] at first second
    exact Except.ok.inj (first.symm.trans second)
  · simp only [← ofTokens?_ok_iff]
    cases ofTokens? located <;> simp
  · intro read b _ run
    exact Builder.depth_of_run run (Nat.zero_le _)

end TrustSchema.Info
