import TrustSchema.Pattern.Parser
import TrustSchema.Proofs.Pattern.Words
import TrustSchema.Proofs.Positions.Repetition

/-!
Following a pattern through a name as a set of positions agrees with the language of the pattern.
Each set of positions stands for all ways to divide the components up to there among the elements,
so that a stretch of components is a word exactly when it joins a position that is followed to one
that is reached.
-/

namespace TrustSchema.Pattern

open Positions

variable {α : Type} [ComponentLanguage α]

/-- The texts between two positions form a word. -/
def Spans (texts : List Text) (word : List Text → Prop) (p q : Nat) : Prop :=
  p ≤ q ∧ q ≤ texts.length ∧ word (texts.extract p q)

theorem le_length_of_has {texts : List Text} {s : Positions texts.length} {p : Nat}
    (member : s.has p = true) : p ≤ texts.length :=
  Nat.le_of_lt_succ (lt_of_has member)

theorem extract_append (texts : List Text) {p q r : Nat} (first : p ≤ q) (second : q ≤ r) :
    texts.extract p q ++ texts.extract q r = texts.extract p r := by
  have split : r - p = (q - p) + (r - q) := by omega
  have place : q = p + (q - p) := by omega
  simp only [List.extract_eq_take_drop]
  rw [split, List.take_add, List.drop_drop, ← place]

theorem spans_nil_iff (texts : List Text) (p q : Nat) :
    Spans texts (· = []) p q ↔ p = q ∧ q ≤ texts.length := by
  constructor
  · rintro ⟨ordered, inside, same⟩
    have size := congrArg List.length same
    simp only [List.extract_eq_take_drop, List.length_take, List.length_drop,
      List.length_nil] at size
    omega
  · rintro ⟨rfl, inside⟩
    exact ⟨Nat.le_refl p, inside, by simp⟩

theorem spans_single_iff (texts : List Text) (admits : Text → Prop) (p q : Nat) :
    Spans texts (fun word => ∃ text, word = [text] ∧ admits text) p q ↔
      q = p + 1 ∧ ∃ text, texts[p]? = some text ∧ admits text := by
  constructor
  · rintro ⟨ordered, inside, text, same, admitted⟩
    have size := congrArg List.length same
    simp only [List.extract_eq_take_drop, List.length_take, List.length_drop,
      List.length_singleton] at size
    obtain rfl : q = p + 1 := by omega
    refine ⟨rfl, text, ?_, admitted⟩
    have first := congrArg (·[0]?) same
    simpa using first
  · rintro ⟨rfl, text, found, admitted⟩
    obtain ⟨inside, same⟩ := List.getElem?_eq_some_iff.mp found
    refine ⟨Nat.le_succ p, inside, text, ?_, admitted⟩
    rw [List.extract_eq_take_drop, Nat.add_sub_cancel_left, List.drop_eq_getElem_cons inside, same]
    rfl

/-- A word of two parts spans a stretch exactly if the parts span it from end to end. -/
theorem spans_append_iff (texts : List Text) (first second : List Text → Prop) (p r : Nat) :
    Spans texts (fun word => ∃ u v, word = u ++ v ∧ first u ∧ second v) p r ↔
      ∃ q, Spans texts first p q ∧ Spans texts second q r := by
  constructor
  · rintro ⟨ordered, inside, u, v, same, before, after⟩
    have size := congrArg List.length same
    simp only [List.extract_eq_take_drop, List.length_take, List.length_drop,
      List.length_append] at size
    -- The parts meet where the first one ends.
    have joined := extract_append texts (Nat.le_add_right p u.length)
      (show p + u.length ≤ r by omega)
    have left : (texts.extract p (p + u.length)).length = u.length := by
      simp only [List.extract_eq_take_drop, List.length_take, List.length_drop]
      omega
    rw [same] at joined
    obtain ⟨head, tail⟩ := List.append_inj joined left
    refine ⟨p + u.length, ⟨Nat.le_add_right _ _, by omega, ?_⟩, ⟨by omega, inside, ?_⟩⟩
    · rw [head]
      exact before
    · rw [tail]
      exact after
  · rintro ⟨q, ⟨ordered, _, before⟩, ⟨ordered', inside, after⟩⟩
    exact ⟨Nat.le_trans ordered ordered', inside, _, _,
      (extract_append texts ordered ordered').symm, before, after⟩

/-- The positions that one repetition of an element leads to. -/
def Node.step (texts : List Text) (node : Node α) :
    Positions texts.length → Positions texts.length :=
  match node with
  | .one test _ => pass (ofBits (texts.map test.accepts))
  | .group inner _ => advanceAll texts inner

theorem Node.advance_eq (texts : List Text) (node : Node α) (s : Positions texts.length) :
    node.advance texts s = afterRepeats (node.step texts) node.bounds s := by
  cases node with
  | one test bounds => rw [advance, step, Node.bounds]
  | group inner bounds => rw [advance, step, Node.bounds]

theorem along_pass (texts : List Text) (test : ComponentTest α) :
    Along (ofBits (texts.map test.accepts) : Positions texts.length).pass
      (Spans texts fun word => ∃ text, word = [text] ∧ test.Admits text) := by
  intro s q
  simp only [has_pass_map_iff, spans_single_iff, ComponentTest.accepts_iff]

/-- If one repetition steps along its words, `count` repetitions lead along theirs. -/
theorem has_iterate_step (texts : List Text) (node : Node α)
    (along : Along (node.step texts) (Spans texts node.Once)) (count : Nat)
    (s : Positions texts.length) (q : Nat) :
    ((node.step texts)^[count] s).has q = true ↔
      ∃ p, s.has p = true ∧ Spans texts (node.Times count) p q := by
  -- The first repetition changes the set that the others start from.
  induction count generalizing s with
  | zero =>
    have none : node.Times 0 = (· = []) := funext fun word => propext (node.times_zero_iff word)
    simp only [none, spans_nil_iff, Function.iterate_zero_apply]
    constructor
    · intro member
      exact ⟨q, member, rfl, le_length_of_has member⟩
    · rintro ⟨p, member, rfl, -⟩
      exact member
  | succ count ih =>
    have parts : node.Times (count + 1) =
        fun word => ∃ u v, word = u ++ v ∧ node.Once u ∧ node.Times count v :=
      funext fun word => propext (node.times_succ_iff count word)
    rw [Function.iterate_succ_apply, ih, parts]
    simp only [spans_append_iff]
    constructor
    · rintro ⟨r, member, after⟩
      obtain ⟨p, start, before⟩ := (along s r).mp member
      exact ⟨p, start, r, before, after⟩
    · rintro ⟨p, start, r, before, after⟩
      exact ⟨r, (along s r).mpr ⟨p, start, before⟩, after⟩

theorem along_advance (texts : List Text) (node : Node α)
    (along : Along (node.step texts) (Spans texts node.Once)) :
    Along (node.advance texts)
      (Spans texts fun word => ∃ count, node.bounds.allow count ∧ node.Times count word) := by
  intro s q
  rw [Node.advance_eq, has_afterRepeats along]
  simp only [has_iterate_step texts node along]
  constructor
  · rintro ⟨count, allowed, p, member, ordered, inside, times⟩
    exact ⟨p, member, ordered, inside, count, allowed, times⟩
  · rintro ⟨p, member, ordered, inside, count, allowed, times⟩
    exact ⟨count, allowed, p, member, ordered, inside, times⟩

mutual

theorem along_step (texts : List Text) (node : Node α) :
    Along (node.step texts) (Spans texts node.Once) := by
  match node with
  | .one test bounds =>
    have words : (Node.one test bounds).Once =
        fun word => ∃ text, word = [text] ∧ test.Admits text :=
      funext fun word => propext (Node.once_one_iff test bounds word)
    rw [words]
    exact along_pass texts test
  | .group inner bounds =>
    have words : (Node.group inner bounds).Once = Sequence inner :=
      funext fun word => propext (Node.once_group_iff inner bounds word)
    rw [words]
    exact along_advanceAll texts inner

/-- A sequence of elements leads along its words. -/
theorem along_advanceAll (texts : List Text) (nodes : List (Node α)) :
    Along (advanceAll texts nodes) (Spans texts (Sequence nodes)) := by
  match nodes with
  | [] =>
    have none : Sequence ([] : List (Node α)) = (· = []) :=
      funext fun word => propext (sequence_nil_iff word)
    intro s q
    simp only [advanceAll, none, spans_nil_iff]
    constructor
    · intro member
      exact ⟨q, member, rfl, le_length_of_has member⟩
    · rintro ⟨p, member, rfl, -⟩
      exact member
  | node :: rest =>
    have first := along_advance texts node (along_step texts node)
    have parts : Sequence (node :: rest) = fun word => ∃ u v, word = u ++ v ∧
        (∃ count, node.bounds.allow count ∧ node.Times count u) ∧ Sequence rest v :=
      funext fun word => propext (sequence_cons_iff node rest word)
    intro s q
    -- The rest of the sequence starts where its first element may end.
    rw [advanceAll, along_advanceAll texts rest, parts]
    simp only [spans_append_iff]
    constructor
    · rintro ⟨r, member, after⟩
      obtain ⟨p, start, before⟩ := (first s r).mp member
      exact ⟨p, start, r, before, after⟩
    · rintro ⟨p, start, r, before, after⟩
      exact ⟨r, (first s r).mpr ⟨p, start, before⟩, after⟩

end

theorem has_starts_iff (anchored : Bool) (n i : Nat) :
    (if anchored then first else all : Positions n).has i = true ↔
      i ≤ n ∧ (anchored = true → i = 0) := by
  cases anchored with
  | false =>
    rw [if_neg Bool.false_ne_true, has_all, decide_eq_true_eq, Nat.lt_succ_iff]
    simp
  | true =>
    simp only [if_true, has_first, decide_eq_true_eq, forall_true_left]
    constructor
    · rintro rfl
      exact ⟨Nat.zero_le _, rfl⟩
    · exact And.right

theorem has_ends_iff (p : Pattern α) (texts : List Text) (j : Nat) :
    (p.ends texts).has j = true ↔
      ∃ i, (i ≤ texts.length ∧ (p.anchoredStart = true → i = 0)) ∧
        Spans texts (Sequence p.nodes) i j := by
  rw [ends, along_advanceAll texts p.nodes]
  simp only [has_starts_iff]

theorem matchesTexts_iff_ends (p : Pattern α) (texts : List Text) :
    p.matchesTexts texts = true ↔
      ∃ j, (p.ends texts).has j = true ∧ (p.anchoredEnd = true → j = texts.length) := by
  rw [matchesTexts]
  cases p.anchoredEnd with
  | true =>
    simp only [if_true, forall_true_left]
    constructor
    · intro member
      exact ⟨texts.length, member, rfl⟩
    · rintro ⟨j, member, rfl⟩
      exact member
  | false =>
    -- Without a sign of the end, any position that is reached will do.
    rw [if_neg Bool.false_ne_true, Bool.not_eq_true', Positions.isEmpty_eq_false_iff]
    simp

theorem matchesTexts_iff (p : Pattern α) (texts : List Text) :
    p.matchesTexts texts = true ↔
      ∃ i j, i ≤ j ∧ j ≤ texts.length ∧ (p.anchoredStart = true → i = 0) ∧
        (p.anchoredEnd = true → j = texts.length) ∧ Sequence p.nodes (texts.extract i j) := by
  rw [matchesTexts_iff_ends]
  simp only [has_ends_iff]
  constructor
  · rintro ⟨j, ⟨i, ⟨-, atStart⟩, ordered, inside, word⟩, atEnd⟩
    exact ⟨i, j, ordered, inside, atStart, atEnd, word⟩
  · rintro ⟨i, j, ordered, inside, atStart, atEnd, word⟩
    have begun : i ≤ texts.length := Nat.le_trans ordered inside
    exact ⟨j, ⟨i, ⟨begun, atStart⟩, ordered, inside, word⟩, atEnd⟩

theorem startAnchor_iff (text : Text) :
    (startAnchor text).1 = true ↔ text.head? = some '^' := by
  unfold startAnchor
  split
  next rest => simp
  next other =>
    cases text with
    | nil => simp
    | cons c rest =>
      simp only [Bool.false_eq_true, List.head?_cons, Option.some.injEq, false_iff]
      rintro rfl
      exact other rest rfl

/-- A sign of the beginning is taken off first, which never uncovers or hides one of the end. -/
theorem endAnchor_iff (text : Text) :
    (endAnchor (startAnchor text).2).1 = true ↔ text.getLast? = some '$' := by
  have last : (startAnchor text).2.getLast? = some '$' ↔ text.getLast? = some '$' := by
    unfold startAnchor
    split
    next rest =>
      cases rest with
      | nil => simp
      | cons c rest => rw [List.getLast?_cons_cons]
    next => rfl
  rw [← last, endAnchor, Text.dropLast?]
  split <;> simp_all

/-- A pattern matches a name exactly if some stretch of the components is a word of its elements,
from the first component if the pattern begins with `^` and to the last if it ends with `$`. -/
theorem matchesName_iff_sequence {text : Text} {p : Pattern α} (compiled : compile? text = .ok p)
    (n : Name) :
    p.matchesName n = true ↔
      ∃ i j, i ≤ j ∧ j ≤ n.size ∧ (text.head? = some '^' → i = 0) ∧
        (text.getLast? = some '$' → j = n.size) ∧
        Sequence p.nodes ((n.components.map Component.toUri).extract i j) := by
  have size : (n.components.map Component.toUri).length = n.size := List.length_map _
  rw [matchesName, matchesTexts_iff, size, ← startAnchor_iff, ← endAnchor_iff]
  unfold compile? at compiled
  dsimp only at compiled
  split at compiled
  · cases compiled
    rfl
  · cases compiled

/-- A whole name in two or more groups of one component or two. -/
def pairsAndSingles : Pattern Regex where
  text := "^(<>?<>){2,}$".toList
  anchoredStart := true
  anchoredEnd := true
  nodes := [.group [.one (.single .any) (.atMost 1), .one (.single .any) (.exactly 1)] (.atLeast 2)]

theorem matchesName_iff_sequence_pairsAndSingles :
    compile? "^(<>?<>){2,}$".toList = .ok pairsAndSingles ∧
      pairsAndSingles.matchesName ⟨[⟨[1]⟩, ⟨[2]⟩, ⟨[3]⟩]⟩ = true := by
  have compiled : compile? "^(<>?<>){2,}$".toList = .ok pairsAndSingles := by cbv
  refine ⟨compiled, (matchesName_iff_sequence compiled _).mpr ?_⟩
  have wild (bounds : Bounds) (text : Text) :
      (Node.one (.single .any) bounds : Node Regex).Times 1 [text] :=
    .succ (.one (.single (.any text))) .zero
  have pair (first second : Text) : Sequence
      ([.one (.single .any) (.atMost 1), .one (.single .any) (.exactly 1)] : List (Node Regex))
      ([first] ++ ([second] ++ [])) :=
    .cons ⟨by decide, by decide⟩ (wild _ _) (.cons ⟨by decide, by decide⟩ (wild _ _) .nil)
  have single (only : Text) : Sequence
      ([.one (.single .any) (.atMost 1), .one (.single .any) (.exactly 1)] : List (Node Regex))
      ([] ++ ([only] ++ [])) :=
    .cons ⟨by decide, by decide⟩ .zero (.cons ⟨by decide, by decide⟩ (wild _ _) .nil)
  exact ⟨0, 3, by decide, by decide, fun _ => rfl, fun _ => rfl,
    .cons ⟨by decide, by decide⟩ (.succ (.group (pair _ _)) (.succ (.group (single _)) .zero)) .nil⟩

end TrustSchema.Pattern
