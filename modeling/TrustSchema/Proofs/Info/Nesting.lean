import Mathlib.Data.List.DropRight
import TrustSchema.Proofs.Info.Acceptance

/-!
Where a block stands among the tokens: how many blocks are open before it, and whether an entry
waits for it. A block that holds nothing but line ends does to the builder what one line end does, except
that no other block may come after it.
-/

namespace TrustSchema.Info

/-- How many more blocks are opened than closed. -/
def nesting (written : List Token) : Int :=
  written.count .blockOpen - written.count .blockClose

/-- The last token that is no line end is a word. -/
def EndsWithEntry (written : List Token) : Prop :=
  ∃ text, (written.rdropWhile (· = .lineEnd)).getLast? = some (.word text)

/-- The first token that is no line end opens a block. -/
def BeginsWithBlock (written : List Token) : Prop :=
  (written.dropWhile (· = .lineEnd)).head? = some .blockOpen

theorem nesting_cons (t : Token) (rest : List Token) :
    nesting (t :: rest) = nesting [t] + nesting rest := by
  simp only [nesting, List.count_cons, List.count_nil]
  omega

theorem endsWithEntry_lineEnd_iff (written : List Token) :
    EndsWithEntry (written ++ [.lineEnd]) ↔ EndsWithEntry written := by
  rw [EndsWithEntry, List.rdropWhile_concat_pos _ _ _ (by simp)]
  rfl

theorem endsWithEntry_concat_iff {t : Token} (solid : t ≠ .lineEnd) (written : List Token) :
    EndsWithEntry (written ++ [t]) ↔ ∃ text, t = .word text := by
  rw [EndsWithEntry, List.rdropWhile_concat_neg _ _ _ (by simpa using solid)]
  simp

theorem BlockFollows.beginsWithBlock {depth : Nat} {rest after : List Token}
    {inner later : List Entry} (follows : BlockFollows depth rest inner later) :
    BeginsWithBlock (rest ++ after) := by
  obtain ⟨breaks, inside, more, rfl, -⟩ := follows
  rw [BeginsWithBlock, List.append_assoc, List.dropWhile_append_of_pos (by simp)]
  rfl

theorem eq_lineEnds_of_section {depth : Nat} {inside : List Token}
    (written : SectionTokens depth inside []) :
    ∃ breaks, inside = List.replicate breaks .lineEnd := by
  induction inside with
  | nil => exact ⟨0, rfl⟩
  | cons t rest ih =>
    generalize whole : t :: rest = tokens at written
    cases written with
    | nil => cases whole
    | lineEnd later =>
      cases whole
      obtain ⟨breaks, rfl⟩ := ih later
      exact ⟨breaks + 1, rfl⟩

namespace Builder

/-- What is known after more tokens, wherever they stand. -/
def feed (b : Builder) (written : List Token) : Except SyntaxError Builder :=
  (written.map fun t => ⟨t, 0⟩).foldlM step b

theorem feed_cons (b : Builder) (t : Token) (rest : List Token) :
    b.feed (t :: rest) = b.step ⟨t, 0⟩ >>= fun b' => b'.feed rest :=
  List.foldlM_cons

theorem feed_concat (b : Builder) (front : List Token) (t : Token) :
    b.feed (front ++ [t]) = b.feed front >>= fun b' => b'.step ⟨t, 0⟩ := by
  rw [feed, List.map_append, List.foldlM_append]
  simp [feed]

theorem completes_append_iff (b : Builder) (front rest : List Token) (tree : List Entry) :
    b.Completes (front ++ rest) tree ↔
      ∃ b', b.feed front = .ok b' ∧ b'.Completes rest tree := by
  induction front generalizing b with
  | nil => simp [feed, pure, Except.pure]
  | cons t front ih =>
    rw [feed_cons]
    cases run : b.step ⟨t, 0⟩ with
    | error e =>
      -- A builder that refuses a token completes nothing that begins with it.
      constructor
      · intro completes
        exact absurd completes (not_completes_of_step run _ tree)
      · rintro ⟨_, failed, -⟩
        cases failed
    | ok b' => exact (completes_of_step run _ tree).trans (ih b')

/-- A word or a line end leaves the open blocks alone, and a brace moves them by one. An entry waits
for more after a word, and after a line end if one did before it. -/
theorem effect_of_step {b b' : Builder} {t : Located} (run : b.step t = .ok b') :
    (b'.outer.length : Int) = b.outer.length + nesting [t.token] ∧
      (b'.pending.isSome = true ↔
        (∃ text, t.token = .word text) ∨ t.token = .lineEnd ∧ b.pending.isSome = true) := by
  obtain ⟨outer, entries, pending⟩ := b
  obtain ⟨token, line⟩ := t
  cases token with
  | lineEnd =>
    cases run
    simp [nesting]
  | word text =>
    match pending, run with
    | none, run =>
      cases run
      simp [nesting]
    | some ⟨key, none, true⟩, run =>
      cases run
      simp [nesting]
    | some ⟨key, some value, true⟩, run => cases run
    | some ⟨key, value, false⟩, run =>
      cases run
      simp [nesting, settle]
  | blockOpen =>
    cases pending with
    | none => cases run
    | some p =>
      simp only [step] at run
      split at run
      next => cases run
      next =>
        cases run
        simp [nesting]
  | blockClose =>
    cases outer with
    | nil => cases run
    | cons block outer =>
      cases run
      have closed : nesting [.blockClose] = -1 := by decide
      refine ⟨?_, by simp⟩
      change (outer.length : Int) = (outer.length + 1 : Nat) + nesting [.blockClose]
      omega

theorem nesting_of_feed {b b' : Builder} {written : List Token} (run : b.feed written = .ok b') :
    (b'.outer.length : Int) = b.outer.length + nesting written := by
  induction written generalizing b with
  | nil =>
    cases run
    exact (Int.add_zero _).symm
  | cons t rest ih =>
    rw [feed_cons] at run
    obtain ⟨middle, first, run⟩ := Text.ok_of_bind run
    rw [ih run, (effect_of_step first).1, nesting_cons t rest, Int.add_assoc]

theorem pending_of_feed {b : Builder} {written : List Token} (run : start.feed written = .ok b) :
    b.pending.isSome = true ↔ EndsWithEntry written := by
  -- What is pending depends on the last tokens, so the induction is from behind.
  induction written using List.reverseRecOn generalizing b with
  | nil =>
    cases run
    simp [start, EndsWithEntry]
  | append_singleton front t ih =>
    rw [feed_concat] at run
    obtain ⟨middle, before, last⟩ := Text.ok_of_bind run
    rw [(effect_of_step last).2, ih before]
    by_cases ended : t = .lineEnd
    · subst ended
      simp [endsWithEntry_lineEnd_iff]
    · simp [endsWithEntry_concat_iff ended, ended]

/-- An entry whose line has ended is over, unless its block comes next. -/
theorem completes_settled_iff {outer : List OpenBlock} {entries : List Entry} {key : Text}
    {value : Option Text} {rest : List Token} (apart : ¬BeginsWithBlock rest) (tree : List Entry) :
    Completes ⟨outer, entries, some ⟨key, value, false⟩⟩ rest tree ↔
      Completes ⟨outer, .mk key (value.getD []) [] :: entries, none⟩ rest tree := by
  -- In the grammar the entry is the first of its section, and has no block.
  have moved (inside after : List Token) (whole : rest = inside ++ after) (later : List Entry) :
      SectionTokens outer.length (words key value ++ .lineEnd :: inside) later ↔
        ∃ later', later = .mk key (value.getD []) [] :: later' ∧
          SectionTokens outer.length inside later' := by
    have proper : ¬BeginsWithWord (.lineEnd :: inside) := by simp [beginsWithWord_cons]
    have noBlock (inner later : List Entry) : ¬BlockFollows outer.length inside inner later := by
      intro follows
      apply apart
      rw [whole]
      exact follows.beginsWithBlock
    rw [section_words_iff fun _ => proper]
    simp only [section_lineEnd_iff, blockFollows_lineEnd_iff, noBlock, or_false]
    constructor
    · rintro ⟨-, inner, later, rfl, rfl, written⟩
      exact ⟨later, rfl, written⟩
    · rintro ⟨later, rfl, written⟩
      exact ⟨proper, [], later, rfl, rfl, written⟩
  simp only [Completes, begun, Option.elim, Pending.begun, Bool.false_eq_true, if_false,
    List.append_assoc, List.singleton_append, List.nil_append, List.reverse_cons]
  constructor
  · rintro ⟨inside, after, later, whole, written, closes⟩
    obtain ⟨others, rfl, remainder⟩ := (moved inside after whole later).mp written
    exact ⟨inside, after, others, whole, remainder, closes⟩
  · rintro ⟨inside, after, later, whole, written, closes⟩
    exact ⟨inside, after, _, whole, (moved inside after whole _).mpr ⟨later, rfl, written⟩, closes⟩

theorem completes_lineEnds_iff (outer : List OpenBlock) (entries : List Entry) (breaks : Nat)
    (rest : List Token) (tree : List Entry) :
    Completes ⟨outer, entries, none⟩ (List.replicate breaks .lineEnd ++ rest) tree ↔
      Completes ⟨outer, entries, none⟩ rest tree := by
  induction breaks with
  | zero => rfl
  | succ breaks ih =>
    rw [List.replicate_succ, List.cons_append, completes_lineEnd]
    exact ih

theorem not_completes_block {outer : List OpenBlock} {entries : List Entry} {rest : List Token}
    (opens : BeginsWithBlock rest) (tree : List Entry) :
    ¬Completes ⟨outer, entries, none⟩ rest tree := by
  induction rest with
  | nil => cases opens
  | cons t rest ih =>
    by_cases ended : t = .lineEnd
    · subst ended
      rw [completes_lineEnd]
      apply ih
      rwa [BeginsWithBlock, List.dropWhile_cons_of_pos (by simp)] at opens
    · rw [BeginsWithBlock, List.dropWhile_cons_of_neg (by simpa using ended)] at opens
      obtain rfl : t = .blockOpen := Option.some.inj opens
      exact not_completes_withoutKey rest tree

/-- A block of line ends leaves the builder as a line end does. -/
theorem completes_emptyBlock_iff {outer : List OpenBlock} {entries : List Entry} (p : Pending)
    (shallow : outer.length < maxDepth) (breaks : Nat) (rest : List Token) (tree : List Entry) :
    Completes ⟨outer, entries, some p⟩
        (.blockOpen :: (List.replicate breaks .lineEnd ++ .blockClose :: rest)) tree ↔
      ¬BeginsWithBlock rest ∧
        Completes ⟨outer, entries, some p⟩ (.lineEnd :: rest) tree := by
  rw [completes_blockOpen p shallow, completes_lineEnds_iff, completes_blockClose,
    completes_lineEnd]
  change Completes ⟨outer, .mk p.key (p.value.getD []) [] :: entries, none⟩ rest tree ↔
    ¬BeginsWithBlock rest ∧ Completes ⟨outer, entries, some ⟨p.key, p.value, false⟩⟩ rest tree
  -- A second block has no entry left to belong to, but would be the first one after a line end.
  by_cases opens : BeginsWithBlock rest
  · simp [opens, not_completes_block opens]
  · rw [completes_settled_iff opens, and_iff_right opens]

end Builder

/-! ### Blocks inside blocks -/

/-- A block of line ends under an entry may be replaced by a line end. -/
theorem section_emptyBlock_iff {before rest : List Token} (waiting : EndsWithEntry before)
    (shallow : nesting before < maxDepth) (breaks : Nat) (tree : List Entry) :
    SectionTokens 0
        (before ++ .blockOpen :: (List.replicate breaks .lineEnd ++ .blockClose :: rest)) tree ↔
      ¬BeginsWithBlock rest ∧ SectionTokens 0 (before ++ .lineEnd :: rest) tree := by
  simp only [← Builder.completes_start_iff, Builder.completes_append_iff]
  rw [← exists_and_left]
  -- Both sides are asked of the builder that has taken what comes before the block.
  refine exists_congr fun b => ?_
  rw [and_left_comm]
  refine and_congr_right fun run => ?_
  obtain ⟨outer, entries, pending⟩ := b
  have depth := Builder.nesting_of_feed run
  obtain ⟨p, rfl⟩ := Option.isSome_iff_exists.mp ((Builder.pending_of_feed run).mpr waiting)
  apply Builder.completes_emptyBlock_iff
  change (outer.length : Int) = 0 + nesting before at depth
  omega

/-- A block inside the block of an entry is the block of an entry there. -/
theorem exists_property_of_block {before after : List Token} {tree : List Entry}
    (inside : nesting before = 1)
    (written : SectionTokens 0 (before ++ .blockOpen :: after) tree) :
    EndsWithEntry before ∧ ∃ body rest inner, after = body ++ .blockClose :: rest ∧
      SectionTokens 2 body inner ∧
      ∃ entry ∈ tree, ∃ property ∈ entry.block, property.block = inner := by
  rw [← Builder.completes_start_iff, Builder.completes_append_iff] at written
  obtain ⟨⟨outer, entries, pending⟩, run, completes⟩ := written
  have depth : (outer.length : Int) = 0 + nesting before := Builder.nesting_of_feed run
  obtain ⟨block, rfl⟩ := List.length_eq_one_iff.mp (by omega : outer.length = 1)
  cases pending with
  | none =>
    -- The brace would have no key.
    exact absurd completes (Builder.not_completes_withoutKey after tree)
  | some p =>
    refine ⟨(Builder.pending_of_feed run).mp rfl, ?_⟩
    have shallow : [block].length < maxDepth := by simp [maxDepth]
    rw [Builder.completes_blockOpen p shallow] at completes
    -- The two open blocks are closed in turn, the new one first.
    obtain ⟨body, _, inner, rfl, body_written, _, _, later, rfl, _, closes⟩ := completes
    obtain ⟨_, _, others, -, -, -, rfl⟩ := closes
    refine ⟨body, _, inner, rfl, body_written, _, List.mem_append_cons_self, _,
      List.mem_append_cons_self, rfl⟩

end TrustSchema.Info
