import TrustSchema.Proofs.Pattern.Acceptance
import TrustSchema.Proofs.Text.Items

/-!
Where the faults stand that a pattern error tells an offset of. The reader has read everything
before such a fault: whole elements, and groups that are still open. Its offset counts from the
beginning of the elements, so that it is one byte short in a text with a leading `^`.
-/

namespace TrustSchema

namespace Text

/-- The character `c` begins at a byte of a text. -/
def BeginsAt (text : Text) (c : Char) (offset : Nat) : Prop :=
  ∃ before after, text = before ++ c :: after ∧ utf8Size before = offset

/-- No more than one character begins at a byte. -/
theorem beginsAt_append_iff (before : Text) (d : Char) (after : Text) (c : Char) :
    BeginsAt (before ++ d :: after) c (utf8Size before) ↔ c = d := by
  constructor
  · rintro ⟨front, rest, whole, size⟩
    -- Fronts of one size end together, as no character is without bytes.
    induction before generalizing front with
    | nil =>
      cases front with
      | nil => exact (List.cons.inj whole).1.symm
      | cons e front =>
        have positive := e.utf8Size_pos
        simp only [utf8Size_cons, utf8Size_nil] at size
        omega
    | cons e before ih =>
      cases front with
      | nil =>
        have positive := e.utf8Size_pos
        simp only [utf8Size_cons, utf8Size_nil] at size
        omega
      | cons e' front =>
        obtain ⟨rfl, tails⟩ := List.cons.inj whole
        simp only [utf8Size_cons] at size
        exact ih front tails (Nat.add_left_cancel size)
  · rintro rfl
    exact ⟨before, after, rfl, rfl⟩

end Text

namespace Pattern

open Text Grammar

/-- The character and the offset that a fault tells. -/
def Fault.place? : Fault → Option (Char × Nat)
  | .nothingToRepeat c offset => some (c, offset)
  | .unexpected c offset => some (c, offset)
  | _ => none

theorem eq_of_repr {m n : Nat} (same : m.repr.toList = n.repr.toList) : m = n := by
  simp only [Nat.repr_eq_ofList_toDigits, String.toList_ofList] at same
  exact ofNat_injective same

/-- A description that tells a place is that of one fault only. -/
theorem Fault.eq_of_reason {fault other : Fault} {place : Char × Nat}
    (told : other.place? = some place) (same : fault.reason = other.reason) : fault = other := by
  have spelled := congrArg String.toList same
  -- Descriptions are opened by `delta`: their equations take long to prove, for the long texts.
  cases other with
  | nothingToRepeat c offset =>
    cases fault <;> delta Fault.reason at spelled <;> dsimp only at spelled <;>
      simp only [inBraces, String.toList_append, String.toList_ofList, String.reduceToList,
        List.cons_append, List.nil_append, List.cons.injEq, Char.reduceEq, false_and, and_false,
        true_and] at spelled
    obtain ⟨rfl, digits⟩ := spelled
    rw [eq_of_repr (List.append_cancel_right digits)]
  | unexpected c offset =>
    cases fault <;> delta Fault.reason at spelled <;> dsimp only at spelled <;>
      simp only [inBraces, String.toList_append, String.toList_ofList, String.reduceToList,
        List.cons_append, List.nil_append, List.cons.injEq, Char.reduceEq, false_and, and_false,
        true_and] at spelled
    obtain ⟨rfl, digits⟩ := spelled
    rw [eq_of_repr digits]
  | _ => cases told

/-! ### Faults without a place -/

theorem place?_of_countOf? {written text : Text} {fault : Fault}
    (failed : countOf? written text = .error fault) : fault.place? = none := by
  rw [countOf?] at failed
  split at failed
  next => cases failed
  split at failed
  next =>
    split at failed
    next => cases failed
    next =>
      cases failed
      rfl
  next =>
    cases failed
    rfl

theorem place?_of_boundsBetween {written : Text} {least greatest : Option Nat} {fault : Fault}
    (failed : boundsBetween written least greatest = .error fault) : fault.place? = none := by
  unfold boundsBetween at failed
  split at failed
  next =>
    cases failed
    rfl
  next => cases failed
  next => cases failed
  next =>
    split at failed
    next => cases failed
    next =>
      cases failed
      rfl

theorem place?_of_boundsOf? {written : Text} {fault : Fault}
    (failed : boundsOf? written = .error fault) : fault.place? = none := by
  rw [boundsOf?] at failed
  split at failed
  next =>
    rcases error_of_bind failed with least | ⟨_, -, failed⟩
    · exact place?_of_countOf? least
    rcases error_of_bind failed with greatest | ⟨_, -, failed⟩
    · exact place?_of_countOf? greatest
    exact place?_of_boundsBetween failed
  next =>
    rcases error_of_bind failed with only | ⟨found, -, failed⟩
    · exact place?_of_countOf? only
    cases found with
    | none =>
      cases failed
      rfl
    | some => cases failed

theorem place?_of_repetition {text : Text} {fault : Fault}
    (failed : repetition text = .error fault) : fault.place? = none := by
  unfold repetition at failed
  split at failed
  next => cases failed
  next => cases failed
  next => cases failed
  next =>
    split at failed
    next => exact place?_of_boundsOf? ((map_error_iff _ _ _).mp failed)
    next =>
      cases failed
      rfl
  next => cases failed

variable {α : Type} [ComponentLanguage α]

theorem place?_of_component {text : Text} {fault : Fault}
    (failed : (component text : Except Fault (ComponentPattern α × Text)) = .error fault) :
    fault.place? = none := by
  rw [component] at failed
  split at failed
  next =>
    cases failed
    rfl
  next =>
    have inner := (map_error_iff _ _ _).mp failed
    rw [componentOf?] at inner
    split at inner
    next => cases inner
    split at inner
    next => cases inner
    next =>
      cases inner
      rfl

theorem place?_of_setMembers {text : Text} {fault : Fault}
    (failed : (setMembers text : Except Fault (List (ComponentPattern α) × Text)) = .error fault) :
    fault.place? = none := by
  fun_induction setMembers (α := α) text with
  | case1 =>
    cases failed
    rfl
  | case2 => cases failed
  | case3 rest inner one =>
    cases failed
    exact place?_of_component one
  | case4 rest member middle one _ ih => exact ih ((map_error_iff _ _ _).mp failed)
  | case5 =>
    cases failed
    rfl

theorem place?_of_testSet {text : Text} {fault : Fault}
    (failed : (testSet text : Except Fault (ComponentTest α × Text)) = .error fault) :
    fault.place? = none := by
  rw [testSet] at failed
  split at failed
  next inner =>
    cases failed
    exact place?_of_setMembers inner
  next =>
    cases failed
    rfl
  next => cases failed

/-! ### Stray characters -/

/-- The other characters that mean something where an element or the end of a group may stand. -/
def elementSigns : List Char := ['<', '[', '(', ')', '^', '$']

/-- The character `c` is a fault after `before`: it repeats, but no test and no group ends there, or
it means nothing at all. -/
inductive Stray (before : Text) (c : Char) : Fault → Prop
  | nothingToRepeat : c ∈ repetitionSigns → ¬EndsIn atomEnds before →
      Stray before c (.nothingToRepeat c (utf8Size before))
  | unexpected : c ∉ repetitionSigns → c ∉ elementSigns →
      Stray before c (.unexpected c (utf8Size before))

theorem Stray.place? {before : Text} {c : Char} {fault : Fault} (stray : Stray before c fault) :
    fault.place? = some (c, utf8Size before) := by
  cases stray <;> rfl

theorem Stray.settled {before : Text} {c : Char} {fault : Fault} (stray : Stray before c fault)
    (rest : Text) : Settled before (c :: rest) := by
  intro atom
  cases stray with
  | nothingToRepeat _ other => exact absurd atom other
  | unexpected other => exact (unsigned_cons_iff c rest).mpr other

theorem Stray.ne {before : Text} {c : Char} {fault : Fault} (stray : Stray before c fault) :
    c ≠ '(' ∧ c ≠ ')' ∧ c ≠ '^' := by
  cases stray with
  | nothingToRepeat sign =>
    refine ⟨?_, ?_, ?_⟩ <;> rintro rfl <;> exact absurd sign (by decide)
  | unexpected _ other =>
    refine ⟨?_, ?_, ?_⟩ <;> rintro rfl <;> exact absurd (by decide) other

/-- The reader of a test tells the place of the characters that are no beginning of one. -/
theorem testFrom_error_iff {before rest : Text} {c : Char} {fault : Fault} {place : Char × Nat}
    (told : fault.place? = some place) (settled : Settled before (c :: rest)) (opening : c ≠ '(')
    (closing : c ≠ ')') :
    (testFrom (utf8Size before) c rest : Except Fault (ComponentTest α × Text)) = .error fault ↔
      Stray before c fault := by
  constructor
  · intro failed
    rw [testFrom] at failed
    -- A test or a set that cannot be read is a fault without a place.
    split at failed
    next =>
      have inner := (map_error_iff _ _ _).mp failed
      rw [place?_of_component inner] at told
      cases told
    split at failed
    next =>
      rw [place?_of_testSet failed] at told
      cases told
    split at failed
    next sign =>
      cases failed
      have sign : c ∈ repetitionSigns := by simpa [repetitionSigns] using sign
      exact .nothingToRepeat sign fun atom => (unsigned_cons_iff c rest).mp (settled atom) sign
    split at failed
    next =>
      cases failed
      cases told
    split at failed
    next =>
      cases failed
      cases told
    next angle bracket sign start stop =>
      cases failed
      exact .unexpected (by simpa [repetitionSigns] using sign)
        (by simp [elementSigns, angle, bracket, opening, closing, start, stop])
  · intro stray
    cases stray with
    | nothingToRepeat sign =>
      simp only [repetitionSigns, List.mem_cons, List.not_mem_nil, or_false] at sign
      rcases sign with rfl | rfl | rfl | rfl <;> rfl
    | unexpected sign other =>
      simp only [repetitionSigns, elementSigns, List.mem_cons, List.not_mem_nil, or_false,
        not_or] at sign other
      simp [testFrom, sign, other]

/-! ### The text before a fault -/

/-- The beginning of a body up to some element: whole elements, and groups that are open, each with
whole elements of its own. Elements stand last first, as the reader keeps them. -/
inductive Begun : Text → List (List (Node α)) → List (Node α) → Prop
  | elements {text nodes} : Elements text nodes.reverse → Begun text [] nodes
  | group {front inner outer around nodes} : Begun front outer around →
      Elements inner nodes.reverse → Begun (front ++ '(' :: inner) (around :: outer) nodes

variable {outer : List (List (Node α))} {nodes : List (Node α)}

theorem Begun.nil : Begun ([] : Text) [] ([] : List (Node α)) :=
  .elements .nil

theorem Begun.element {front text : Text} {node : Node α} (begun : Begun front outer nodes)
    (written : Element text node) : Begun (front ++ text) outer (node :: nodes) := by
  have last : Elements text [node] := by simpa using Elements.cons written .nil
  cases begun with
  | elements before => exact .elements (by simpa using before.append last)
  | group around before =>
    rw [List.append_assoc]
    exact .group around (by simpa using before.append last)

theorem Begun.close {front text : Text} {around : List (Node α)} {bounds : Bounds}
    (begun : Begun front (around :: outer) nodes) (repeated : Grammar.Repetition text bounds) :
    Begun (front ++ ')' :: text) outer (.group nodes.reverse bounds :: around) := by
  cases begun with
  | group around inner =>
    rw [List.append_assoc]
    exact around.element (.group inner repeated)

theorem Begun.endsIn {before : Text} (begun : Begun before outer nodes) :
    before = [] ∨ EndsIn ('(' :: (atomEnds ++ signEnds)) before := by
  have within : ∀ c ∈ atomEnds ++ signEnds, c ∈ '(' :: (atomEnds ++ signEnds) :=
    fun c => List.mem_cons_of_mem _
  cases begun with
  | elements written =>
    exact (endsIn_of_elements written).imp id (EndsIn.mono within)
  | @group front inner _ _ _ _ written =>
    right
    rw [List.append_cons]
    rcases endsIn_of_elements written with rfl | last
    · rw [List.append_nil]
      exact EndsIn.append front ⟨'(', List.mem_cons_self, rfl⟩
    · exact (last.mono within).append _

/-- In a group that has no elements yet nothing is repeated. -/
theorem settled_opening (before after : Text) : Settled (before ++ ['(']) after := by
  have last : EndsIn ['('] (before ++ ['(']) := EndsIn.append before ⟨'(', by decide, rfl⟩
  exact fun atom => absurd atom (last.not (by simp [atomEnds]))

/-- After a repetition that was read to its end none follows. -/
theorem settled_repetition (before : Text) {text after : Text} {bounds : Bounds}
    (written : Grammar.Repetition text bounds) (settled : text = [] → Unsigned after) :
    Settled (before ++ text) after := by
  rcases endsIn_of_repetition written with rfl | sign
  · exact fun _ => settled rfl
  · exact fun atom => absurd atom ((sign.append before).not (by simp [signEnds, atomEnds]))

/-- After the beginning of a body the reader has its elements and its open groups. -/
theorem nodesFrom_of_begun {before after : Text} (begun : Begun before outer nodes)
    (settled : Settled before after) (body : Text) :
    nodesFrom body [] [] (before ++ after) = nodesFrom body outer nodes after := by
  induction begun generalizing after with
  | elements written =>
    rw [nodesFrom_of_elements written body [] [] settled, List.reverse_reverse, List.append_nil]
  | @group front inner outer around nodes _ written ih =>
    have opened : Settled front ('(' :: (inner ++ after)) := fun _ =>
      (unsigned_cons_iff '(' _).mpr (by decide)
    have last : Settled inner after := fun atom =>
      settled (List.append_cons front '(' inner ▸ atom.append _)
    rw [List.append_assoc, List.cons_append, ih opened, nodesFrom_open,
      nodesFrom_of_elements written body _ [] last, List.reverse_reverse, List.append_nil]

/-- Every run of the reader that tells a place has read all that stands before it. -/
theorem begun_of_nodesFrom {body before text : Text} {fault : Fault} {place : Char × Nat}
    (told : fault.place? = some place) (whole : body = before ++ text)
    (begun : Begun before outer nodes) (settled : Settled before text)
    (failed : nodesFrom body outer nodes text = .error fault) :
    ∃ front c after later inner, body = front ++ c :: after ∧
      Begun front later (inner : List (Node α)) ∧ Stray front c fault := by
  -- Each step moves an element or a parenthesis from the rest of the body to what was read.
  fun_induction nodesFrom body outer nodes text generalizing before with
  | case1 => cases failed
  | case2 =>
    cases failed
    cases told
  | case3 outer nodes rest ih =>
    exact ih (by rw [whole, List.append_assoc]; rfl) (.group begun .nil)
      (settled_opening before rest) failed
  | case4 =>
    cases failed
    cases told
  | case5 nodes rest around outer fault repeated =>
    cases failed
    rw [place?_of_repetition repeated] at told
    cases told
  | case6 nodes rest around outer bounds after repeated _ ih =>
    obtain ⟨sign, rfl, written, unsigned⟩ := exists_of_repetition repeated
    simp only [List.unattach_reverse, List.unattach_attach] at ih
    have closed := settled_repetition (before ++ [')']) written unsigned
    rw [List.append_assoc] at closed
    exact ih (by rw [whole, List.append_assoc]; rfl) (begun.close written) closed failed
  | case7 outer nodes c rest opening closing fault failing =>
    -- The fault stands here, and its offset is the size of what was read.
    cases failed
    rw [whole, utf8Size_append_sub] at failing
    exact ⟨before, c, rest, outer, nodes, whole, begun,
      (testFrom_error_iff told settled opening closing).mp failing⟩
  | case8 outer nodes c rest _ _ test middle _ fault repeated =>
    cases failed
    rw [place?_of_repetition repeated] at told
    cases told
  | case9 outer nodes c rest _ _ test middle tested bounds after repeated ih =>
    obtain ⟨first, front, written⟩ := (testFrom_ok_iff _ _ _ _ _).mp tested
    obtain ⟨sign, rfl, later, unsigned⟩ := exists_of_repetition repeated
    have read := settled_repetition (before ++ first) later unsigned
    rw [List.append_assoc] at read
    exact ih (by rw [whole, front]; simp) (begun.element (.one written later)) read failed

/-- A stray character stops the reader, which tells how much it has read. -/
theorem nodesFrom_stray {before : Text} {c : Char} {fault : Fault} (stray : Stray before c fault)
    (outer : List (List (Node α))) (nodes : List (Node α)) (after : Text) :
    nodesFrom (before ++ c :: after) outer nodes (c :: after) = .error fault := by
  obtain ⟨opening, closing, -⟩ := stray.ne
  have failing :=
    (testFrom_error_iff (α := α) stray.place? (stray.settled after) opening closing).mpr stray
  rw [nodesFrom_test_eq opening closing, utf8Size_append_sub, failing]
  rfl

/-- The reader of a body tells a place exactly if a stray character stands there and everything
before it can be read. -/
theorem nodesOf?_error_iff (body : Text) {fault : Fault} {place : Char × Nat}
    (told : fault.place? = some place) :
    (nodesOf? body : Except Fault (List (Node α))) = .error fault ↔
      ∃ before c after outer nodes, body = before ++ c :: after ∧
        Begun before outer (nodes : List (Node α)) ∧ Stray before c fault := by
  constructor
  · intro failed
    -- At the beginning nothing was read, and a repetition there has nothing before it.
    have settled : Settled [] body := fun atom => by
      obtain ⟨c, -, same⟩ := atom
      cases same
    exact begun_of_nodesFrom told rfl .nil settled failed
  · rintro ⟨before, c, after, outer, nodes, rfl, begun, stray⟩
    rw [nodesOf?, nodesFrom_of_begun begun (stray.settled after), nodesFrom_stray stray]

/-- With one byte put before a body, the offset of its fault is that of the character before. -/
theorem beginsAt_caret_iff {before : Text} (begun : Begun before outer nodes) {c : Char}
    (other : c ≠ '^') (after : Text) :
    BeginsAt ('^' :: (before ++ c :: after)) c (utf8Size before) ↔ before.getLast? = some c := by
  have small : ∀ d ∈ '(' :: (atomEnds ++ signEnds), d.utf8Size = 1 := by
    simp [atomEnds, signEnds, Char.utf8Size]
  rcases begun.endsIn with rfl | ⟨d, member, last⟩
  · have first := beginsAt_append_iff [] '^' (c :: after) c
    exact iff_of_false (fun begins => other (first.mp begins)) nofun
  · obtain ⟨front, rfl⟩ := List.getLast?_eq_some_iff.mp last
    have size : utf8Size (front ++ [d]) = utf8Size ('^' :: front) := by
      rw [utf8Size_append, utf8Size_cons, utf8Size_cons, small d member, utf8Size_nil]
      exact Nat.add_comm _ _
    have whole : '^' :: (front ++ [d] ++ c :: after) = '^' :: front ++ d :: (c :: after) := by simp
    rw [whole, size, beginsAt_append_iff, last, Option.some.injEq, eq_comm]

theorem startAnchor_fst_iff (text : Text) :
    (startAnchor text).1 = true ↔ text.head? = some '^' := by
  unfold startAnchor
  split
  next => simp
  next plain =>
    refine iff_of_false Bool.false_ne_true fun start => ?_
    obtain ⟨rest, rfl⟩ := List.head?_eq_some_iff.mp start
    exact plain rest rfl

/-- The elements of a text stand between its signs of the beginning and of the end. -/
theorem exists_elements (text : Text) :
    ∃ last, text = (if text.head? = some '^' then ['^'] else []) ++
      ((endAnchor (startAnchor text).2).2 ++ last) := by
  have whole := exists_startAnchor text
  rw [exists_endAnchor (startAnchor text).2] at whole
  simp only [startAnchor_fst_iff] at whole
  exact ⟨_, whole⟩

/-- An error that tells an offset `k` of a character `c` tells it in the elements of the text: there
everything before the character was read, and the character is stray. In the text itself, which the
error carries, the character begins one byte later if the text has a leading `^`. What begins at the
byte `k` of such a text is the character before it. -/
theorem compile?_offset (text : Text) (e : PatternError) (c : Char) (k : Nat)
    (failed : (compile? text : Except PatternError (Pattern α)) = .error e)
    (reason : e.fault.reason = (Fault.nothingToRepeat c k).reason ∨
      e.fault.reason = (Fault.unexpected c k).reason) :
    e.pattern = text ∧
    ∃ before after outer nodes,
      text = (if text.head? = some '^' then ['^'] else []) ++ (before ++ c :: after) ∧
      Begun before outer (nodes : List (Node α)) ∧ Stray before c e.fault ∧
      BeginsAt text c (if text.head? = some '^' then k + 1 else k) ∧
      (BeginsAt text c k ↔ text.head? ≠ some '^' ∨ before.getLast? = some c) := by
  obtain ⟨same, wrong⟩ := (compile?_error_iff text e).mp failed
  refine ⟨same, ?_⟩
  have told : e.fault.place? = some (c, k) := by
    rcases reason with same | same <;> rw [Fault.eq_of_reason rfl same] <;> rfl
  obtain ⟨before, c', after, outer, nodes, body, begun, stray⟩ :=
    (nodesOf?_error_iff _ told).mp wrong
  cases Option.some.inj (stray.place?.symm.trans told)
  -- A sign of the end stands after the fault and moves nothing.
  obtain ⟨last, whole⟩ := exists_elements text
  rw [body, List.append_assoc, List.cons_append] at whole
  refine ⟨before, after ++ last, outer, nodes, whole, begun, stray, ?_⟩
  by_cases start : text.head? = some '^'
  · rw [if_pos start] at whole ⊢
    have there : BeginsAt text c (utf8Size before + 1) :=
      ⟨'^' :: before, _, whole, Nat.add_comm _ _⟩
    have short := beginsAt_caret_iff begun stray.ne.2.2 (after ++ last)
    rw [← List.singleton_append, ← whole] at short
    simpa only [start, ne_eq, not_true, false_or] using And.intro there short
  · rw [if_neg start] at whole ⊢
    have there : BeginsAt text c (utf8Size before) := ⟨before, _, whole, rfl⟩
    exact ⟨there, iff_of_true there (.inl start)⟩

/-- A test with two signs of repetition, in a group that is still open. -/
def twiceRepeated : Text := "^(<é>*?".toList

theorem compile?_offset_twiceRepeated :
    (compile? twiceRepeated : Except PatternError (Pattern Regex)) =
        .error ⟨twiceRepeated, .nothingToRepeat '?' 6⟩ ∧
      BeginsAt twiceRepeated '?' 7 := by
  obtain ⟨test, parsed, -⟩ : ∃ test, Regex.parse? (Regex.anchored ['é']) = .ok test ∧ true :=
    ok_of_any (by decide +kernel)
  have member : Member ('<' :: (['é'] ++ ['>'])) (.expression test) :=
    .expression (by decide) (by decide) parsed
  have begun : Begun ("(<é>*".toList) [[]] [Node.one (.single (.expression test)) (.atLeast 0)] :=
    .group .nil (.cons (.one (.single member) .star) .nil)
  have repeated : ¬EndsIn atomEnds "(<é>*".toList :=
    EndsIn.not (by simp [signEnds, atomEnds]) (⟨'*', by decide, rfl⟩ : EndsIn signEnds _)
  have wrong : (nodesOf? "(<é>*?".toList : Except Fault (List (Node Regex))) =
      .error (.nothingToRepeat '?' 6) :=
    (nodesOf?_error_iff _ rfl).mpr
      ⟨_, '?', [], _, _, rfl, begun, .nothingToRepeat (by decide) repeated⟩
  have failed : (compile? twiceRepeated : Except PatternError (Pattern Regex)) =
      .error ⟨twiceRepeated, .nothingToRepeat '?' 6⟩ := (compile?_error_iff _ _).mpr ⟨rfl, wrong⟩
  obtain ⟨-, _, _, _, _, -, -, -, there, -⟩ := compile?_offset _ _ '?' 6 failed (.inl rfl)
  exact ⟨failed, there⟩

/-- A pattern that begins with a repetition after the sign of the beginning. -/
def repeatedStart : Text := "^*<a>".toList

/-- The offset is that of the sign of the beginning. -/
theorem compile?_repeatedStart :
    (compile? repeatedStart : Except PatternError (Pattern Regex)) =
        .error ⟨repeatedStart, .nothingToRepeat '*' 0⟩ ∧
      ¬BeginsAt repeatedStart '*' 0 := by
  have failed : (compile? repeatedStart : Except PatternError (Pattern Regex)).map (fun _ => ()) =
      .error ⟨repeatedStart, .nothingToRepeat '*' 0⟩ := by decide +kernel
  refine ⟨(map_error_iff _ _ _).mp failed, fun begins => ?_⟩
  have first := beginsAt_append_iff [] '^' "*<a>".toList '*'
  exact absurd (first.mp begins) (by decide)

end Pattern

end TrustSchema
