import TrustSchema.Proofs.Pattern.Literal
import TrustSchema.Proofs.Regex.Meaning
import TrustSchema.Proofs.Text.Percent

/-!
Regular expressions that match one text only, from end to end. The test that a text writes for
itself is read as such an expression, unless its automata take too much space.
-/

namespace TrustSchema.Regex

open Pattern

/-- A literal between the conditions of both ends of a text. -/
def wholeLiteral (characters : Text) : Regex :=
  .seq (.look .textStart) (.seq (.literal characters) (.look .textEnd))

theorem search_wholeLiteral_iff (characters text : Text) :
    (wholeLiteral characters).search text = true ↔ text = characters := by
  have denotes : Denotes (wholeLiteral characters) _ :=
    denotes_seq (denotes_look .textStart)
      (denotes_seq (denotes_literal characters) (denotes_look .textEnd))
  rw [denotes.search_iff, meaning_textStart, meaning_textEnd]
  constructor
  · rintro ⟨_, -, _, _, ⟨rfl, rfl⟩, _, ⟨start, atEnd⟩, rfl, -⟩
    rw [Nat.zero_add] at atEnd
    exact (start.eq_of_length atEnd.symm).symm
  · rintro rfl
    exact ⟨0, Nat.zero_le _, _, 0, ⟨rfl, rfl⟩, _, ⟨List.prefix_rfl, (Nat.zero_add _).symm⟩,
      rfl, rfl⟩

/-! ### Pieces -/

theorem ofSet_only (c : Char) : ofSet (.only c) = literal [c] := by
  rw [ofSet, CharSet.member?_only]

theorem concat_literals {text : Text} (nonempty : text ≠ []) :
    concat (text.map fun c => literal [c]) = literal text := by
  have flat : (text.map fun c => literal [c]).flatMap parts = text.map fun c => literal [c] := by
    rw [List.flatMap_map]
    exact (List.map_eq_flatMap ..).symm
  have joined : (text.map fun c => literal [c]).foldr partBefore [] = [literal text] := by
    clear flat
    induction text with
    | nil => exact absurd rfl nonempty
    | cons c rest ih =>
      cases rest with
      | nil => rfl
      | cons d rest =>
        rw [List.map_cons, List.foldr_cons, ih (List.cons_ne_nil d rest)]
        rfl
  rw [concat, flat, joined]
  rfl

/-- The pieces that the characters of a text become, last first. -/
def literalPieces (text : Text) : List Piece :=
  (text.map fun c => ⟨some (.literal [c]), 0⟩).reverse

theorem literalPieces_cons (c : Char) (text : Text) :
    literalPieces (c :: text) = literalPieces text ++ [⟨some (.literal [c]), 0⟩] := by
  rw [literalPieces, List.map_cons, List.reverse_cons, literalPieces]

theorem step_literal {b : Builder} (minded : b.current.flags.ignoreCase = false) (c : Char) :
    b.step (.literal c false) = .ok (b.add (.literal [c]) 0) := by
  have only : b.current.flags.literal c false = .ok (.only c) := by
    simp [Flags.literal, Flags.folded, minded]
  rw [Builder.step, only, ← ofSet_only]
  rfl

theorem foldl_max_literalPieces (text : Text) :
    ((literalPieces text).map (·.height)).foldl Nat.max 0 = 0 := by
  have flat : (literalPieces text).map (·.height) = List.replicate text.length 0 := by
    simp [literalPieces, Function.comp_def, List.map_const']
  rw [flat]
  induction text.length with
  | zero => rfl
  | succ count ih => exact ih

/-- Characters in turn are one literal, which nests one level deep at most. -/
theorem exists_sequence_literalPieces {g : OpenGroup} {text : Text} (nonempty : text ≠ [])
    (pieces : g.pieces = literalPieces text) :
    ∃ height ≤ 1, g.sequence = (.literal text, height) := by
  have regexes : (literalPieces text).reverse.filterMap (·.regex) =
      text.map fun c => Regex.literal [c] := by
    rw [literalPieces, List.reverse_reverse, List.filterMap_map]
    exact congrFun List.filterMap_eq_map text
  refine ⟨if 2 ≤ text.length then 1 else 0, by split <;> decide, ?_⟩
  rw [OpenGroup.sequence, pieces, regexes, concat_literals nonempty, foldl_max_literalPieces,
    literalPieces, List.length_reverse, List.length_map]

/-! ### Reading -/

section

variable [PropertyTable]

theorem tokenFrom_of_isPrinted {c : Char} (printed : Text.Percent.isPrinted c = true)
    (plain : ¬(c = '.' ∨ c = '+')) (rest : Text) :
    tokenFrom false c rest = .ok (.literal c false, rest) := by
  unfold tokenFrom
  split
  case h_7 => exact absurd (.inl rfl) plain
  case h_11 => exact absurd (.inr rfl) plain
  case h_13 => rfl
  all_goals exact absurd printed (by decide)

/-- Nothing read but pieces, last first, in a group within others. -/
def Builder.plain (pieces : List Piece) (outer : List OpenGroup) : Builder :=
  ⟨⟨none, .initial, [], pieces⟩, outer, 0⟩

theorem read_plain (pieces : List Piece) (outer : List OpenGroup) {c : Char} {rest after : Text}
    {t : Token} {b : Builder} (first : tokenFrom false c rest = .ok (t, after))
    (stepped : (Builder.plain pieces outer).step t = .ok b) :
    (Builder.plain pieces outer).read (c :: rest) = b.read after := by
  rw [Builder.read_of_cons rfl first, stepped]
  rfl

theorem read_literalTest {text : Text} (printed : ∀ c ∈ text, Text.Percent.isPrinted c = true)
    (pieces : List Piece) (outer : List OpenGroup) (rest : Text) :
    (Builder.plain pieces outer).read (literalTest text ++ rest) =
      (Builder.plain (literalPieces text ++ pieces) outer).read rest := by
  induction text generalizing pieces with
  | nil => rfl
  | cons c text ih =>
    have later := ih (fun d member => printed d (List.mem_cons_of_mem c member))
      (⟨some (.literal [c]), 0⟩ :: pieces)
    have stepped := step_literal (b := .plain pieces outer) rfl c
    rw [literalPieces_cons, List.append_assoc, literalTest, List.flatMap_cons, List.append_assoc]
    refine .trans ?_ later
    split
    next special =>
      -- An escaped sign stands for itself.
      refine read_plain _ _ ?_ stepped
      rcases special with rfl | rfl <;> rfl
    next plain =>
      exact read_plain _ _ (tokenFrom_of_isPrinted (printed c List.mem_cons_self) plain _) stepped

theorem read_anchored_literalTest {text : Text} (nonempty : text ≠ [])
    (printed : ∀ c ∈ text, Text.Percent.isPrinted c = true) :
    Builder.start.read (anchored (literalTest text)) >>= Builder.finish =
      .ok (wholeLiteral text) := by
  let caret : Piece := ⟨some (.look .textStart), 0⟩
  let around : OpenGroup := ⟨none, .initial, [], [caret]⟩
  let inside : OpenGroup := ⟨none, .initial, [], literalPieces text⟩
  obtain ⟨height, low, contents⟩ : ∃ height ≤ 1, inside.contents = (.literal text, height) :=
    exists_sequence_literalPieces nonempty rfl
  let group : Piece := ⟨some (.literal text), height + 1⟩
  have closed : (Builder.plain (literalPieces text) [around]).step .groupClose =
      .ok (Builder.plain [group, caret] []) := by
    change (Builder.mk inside [around] 0).step .groupClose = _
    rw [Builder.step, OpenGroup.finish, contents]
    rfl
  have shallow : ¬maxNesting < Nat.max (Nat.max (Nat.max 0 0) (height + 1)) 0 + 1 := by
    change ¬250 < max (max (max 0 0) (height + 1)) 0 + 1
    omega
  have read : Builder.start.read (anchored (literalTest text)) =
      .ok (Builder.plain [⟨some (.look .textEnd), 0⟩, group, caret] []) := by
    rw [anchored, List.append_assoc]
    -- The caret and the opening of the group are read first.
    refine (read_plain [] [] rfl rfl).trans ?_
    refine (read_plain [caret] [] rfl rfl).trans ?_
    refine (read_literalTest printed [] [around] [')', '$']).trans ?_
    rw [List.append_nil, read_plain _ _ rfl closed, read_plain _ _ rfl rfl]
    exact Builder.read_of_nil rfl
  rw [read]
  exact if_neg shallow

theorem parse?_anchored_literalTest {text : Text} (nonempty : text ≠ [])
    (printed : ∀ c ∈ text, Text.Percent.isPrinted c = true) :
    parse? (anchored (literalTest text)) =
      if (wholeLiteral text).fits then .ok (wholeLiteral text) else .error .tooLarge := by
  obtain ⟨b, read, finished⟩ := Text.ok_of_bind (read_anchored_literalTest nonempty printed)
  rw [parse?, read]
  change (b.finish >>= fun _ => _) = _
  rw [finished]
  change (if (!(wholeLiteral text).fits) = true then _ else _) = _
  cases (wholeLiteral text).fits <;> rfl

/-- Regular expressions take the texts of components literally, if their automata fit. -/
theorem readsLiterally {text : Text} (nonempty : text ≠ [])
    (printed : ∀ c ∈ text, Text.Percent.isPrinted c = true)
    (fits : (wholeLiteral text).fits = true) : ReadsLiterally Regex text := by
  refine ⟨wholeLiteral text, ?_, search_wholeLiteral_iff text⟩
  refine (parse?_anchored_literalTest nonempty printed).trans ?_
  rw [if_pos fits]

end

end TrustSchema.Regex
