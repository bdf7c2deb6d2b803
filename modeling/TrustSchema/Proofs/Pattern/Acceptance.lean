import TrustSchema.Proofs.Pattern.Counts

/-!
The pattern reader accepts exactly the grammar, and gives the one pattern that the grammar has for a
text. Tests are read from the front, with what follows left alone. The reader of elements keeps the
groups that are open on a stack; `Finishes` says what such a stack still asks of the rest of a body.
-/

namespace TrustSchema.Pattern

open Text Grammar

variable {α : Type} [ComponentLanguage α]

/-! ### Tests -/

theorem component_ok_iff (text after : Text) (member : ComponentPattern α) :
    component text = .ok (member, after) ↔
      ∃ front, '<' :: text = front ++ after ∧ Member front member := by
  constructor
  · intro read
    rw [component] at read
    split at read
    next => cases read
    next written rest cut =>
      obtain ⟨whole, absent⟩ := cutAt_eq_some cut
      obtain ⟨found, inner, same⟩ := ok_of_map read
      cases same
      refine ⟨'<' :: (written ++ ['>']), by simp [whole], ?_⟩
      rw [componentOf?] at inner
      split at inner
      next nothing =>
        cases inner
        rw [List.isEmpty_iff.mp nothing]
        exact .any
      next some =>
        split at inner
        next test compiled =>
          cases inner
          exact .expression (fun nothing => some (List.isEmpty_iff.mpr nothing)) absent compiled
        next => cases inner
  · rintro ⟨front, whole, written⟩
    cases written with
    | any =>
      cases whole
      rfl
    | expression nonempty absent compiled =>
      simp only [List.cons_append, List.append_assoc, List.cons.injEq, true_and] at whole
      rw [whole, component, List.nil_append, cutAt_append absent]
      simp only [componentOf?, List.isEmpty_eq_false_iff.mpr nonempty, compiled]
      rfl

theorem exists_eq_cons_of_member {text : Text} {member : ComponentPattern α}
    (written : Member text member) : ∃ rest, text = '<' :: rest := by
  cases written with
  | any => exact ⟨_, rfl⟩
  | expression => exact ⟨_, rfl⟩

theorem setMembers_member {text middle : Text} {member : ComponentPattern α}
    (one : component text = .ok (member, middle)) :
    setMembers ('<' :: text) =
      (setMembers middle).map fun (members, last) => (member :: members, last) := by
  rw [setMembers, if_neg (by decide), if_pos rfl]
  split
  next failed =>
    rw [one] at failed
    cases failed
  next found =>
    rw [one] at found
    cases found
    rfl

theorem setMembers_ok_iff (text after : Text) (members : List (ComponentPattern α)) :
    setMembers text = .ok (members, after) ↔
      ∃ front, text = front ++ ']' :: after ∧ Members front members := by
  constructor
  · intro read
    fun_induction setMembers (α := α) text generalizing members with
    | case1 => cases read
    | case2 rest =>
      cases read
      exact ⟨[], rfl, .nil⟩
    | case3 => cases read
    | case4 rest member middle one _ ih =>
      -- The other members stand between the first one and the closing bracket.
      obtain ⟨⟨others, last⟩, more, same⟩ := ok_of_map read
      cases same
      obtain ⟨first, here, written⟩ := (component_ok_iff _ _ _).mp one
      obtain ⟨front, rfl, later⟩ := ih others more
      exact ⟨first ++ front, by rw [here, List.append_assoc], .cons written later⟩
    | case5 => cases read
  · rintro ⟨front, rfl, written⟩
    induction written with
    | nil => rw [List.nil_append, setMembers, if_pos rfl]
    | @cons first rest member members here _ ih =>
      obtain ⟨inner, rfl⟩ := exists_eq_cons_of_member here
      have one : component (inner ++ (rest ++ ']' :: after)) =
          .ok (member, rest ++ ']' :: after) :=
        (component_ok_iff _ _ _).mpr ⟨_, rfl, here⟩
      rw [List.append_assoc, List.cons_append, setMembers_member one, ih]
      rfl

theorem startAnchor_append (anchored : Bool) {rest : Text} (plain : rest.head? ≠ some '^') :
    startAnchor ((if anchored then ['^'] else []) ++ rest) = (anchored, rest) := by
  cases anchored with
  | true => rfl
  | false =>
    change startAnchor rest = (false, rest)
    unfold startAnchor
    split
    next => exact absurd rfl plain
    next => rfl

theorem exists_startAnchor (text : Text) :
    text = (if (startAnchor text).1 = true then ['^'] else []) ++ (startAnchor text).2 := by
  unfold startAnchor
  split <;> rfl

/-- A negation is taken off a set like a sign of the beginning off a pattern. -/
theorem setNegation_eq_startAnchor (text : Text) : setNegation text = startAnchor text := rfl

theorem testSet_ok_iff (text after : Text) (test : ComponentTest α) :
    testSet text = .ok (test, after) ↔
      ∃ front, '[' :: text = front ++ after ∧ Test front test := by
  constructor
  · intro read
    rw [testSet] at read
    split at read
    next => cases read
    next => cases read
    next member members last found =>
      cases read
      obtain ⟨front, inner, written⟩ := (setMembers_ok_iff _ _ _).mp found
      rw [setNegation_eq_startAnchor] at inner
      refine ⟨_, ?_, .set (startAnchor text).1 written (List.cons_ne_nil member members)⟩
      rw [List.cons_append, List.cons.injEq]
      refine ⟨rfl, (exists_startAnchor text).trans ?_⟩
      rw [inner]
      simp
  · rintro ⟨front, whole, written⟩
    cases written with
    | single written =>
      obtain ⟨rest, rfl⟩ := exists_eq_cons_of_member written
      cases whole
    | set negated written nonempty =>
      rename_i inner members
      cases members with
      | nil => exact absurd rfl nonempty
      | cons member members =>
        -- The first member begins with a bracket, so that only a negation is taken for one.
        have plain : (inner ++ ']' :: after).head? ≠ some '^' := by
          cases written with
          | cons here later =>
            obtain ⟨rest, rfl⟩ := exists_eq_cons_of_member here
            simp
        have read : setMembers (inner ++ ']' :: after) = .ok (member :: members, after) :=
          (setMembers_ok_iff _ _ _).mpr ⟨inner, rfl, written⟩
        have split := startAnchor_append negated plain
        simp only [List.cons_append, List.append_assoc, List.cons.injEq, true_and,
          List.nil_append] at whole
        rw [whole, testSet, setNegation_eq_startAnchor, split]
        simp only [read]

theorem exists_eq_cons_of_test {text : Text} {test : ComponentTest α} (written : Test text test) :
    (∃ rest, text = '<' :: rest) ∨ ∃ rest, text = '[' :: rest := by
  cases written with
  | single written => exact .inl (exists_eq_cons_of_member written)
  | set => exact .inr ⟨_, rfl⟩

theorem testFrom_ok_iff (offset : Nat) (c : Char) (rest after : Text) (test : ComponentTest α) :
    testFrom offset c rest = .ok (test, after) ↔
      ∃ front, c :: rest = front ++ after ∧ Test front test := by
  rw [testFrom]
  split
  next angle =>
    subst angle
    constructor
    · intro read
      obtain ⟨⟨member, last⟩, one, same⟩ := ok_of_map read
      cases same
      obtain ⟨front, whole, written⟩ := (component_ok_iff _ _ _).mp one
      exact ⟨front, whole, .single written⟩
    · rintro ⟨front, whole, written⟩
      cases written with
      | single written => rw [(component_ok_iff _ _ _).mpr ⟨front, whole, written⟩]; rfl
      | set => cases whole
  split
  next bracket =>
    subst bracket
    exact testSet_ok_iff rest after test
  next angle bracket =>
    constructor
    · intro read
      -- Nothing but a reason for the fault is chosen from here on.
      split at read
      next => cases read
      split at read
      next => cases read
      split at read
      next => cases read
      next => cases read
    · rintro ⟨front, whole, written⟩
      rcases exists_eq_cons_of_test written with ⟨inner, rfl⟩ | ⟨inner, rfl⟩
      · exact absurd (List.cons.inj whole).1 angle
      · exact absurd (List.cons.inj whole).1 bracket

/-! ### Ends -/

/-- The last character of a text is one of these. -/
def EndsIn (ends : List Char) (text : Text) : Prop :=
  ∃ c ∈ ends, text.getLast? = some c

theorem EndsIn.append {ends : List Char} (front : Text) {text : Text} (last : EndsIn ends text) :
    EndsIn ends (front ++ text) := by
  obtain ⟨c, member, same⟩ := last
  exact ⟨c, member, by rw [List.getLast?_append, same, Option.some_or]⟩

theorem EndsIn.mono {ends others : List Char} {text : Text} (within : ∀ c ∈ ends, c ∈ others)
    (last : EndsIn ends text) : EndsIn others text := by
  obtain ⟨c, member, same⟩ := last
  exact ⟨c, within c member, same⟩

theorem EndsIn.not {ends others : List Char} {text : Text} (apart : ∀ c ∈ ends, c ∉ others)
    (last : EndsIn ends text) : ¬EndsIn others text := by
  obtain ⟨c, member, same⟩ := last
  rintro ⟨d, other, again⟩
  cases Option.some.inj (same.symm.trans again)
  exact apart c member other

theorem endsIn_cons_append {ends : List Char} {c : Char} (member : c ∈ ends) (d : Char)
    (text : Text) : EndsIn ends (d :: (text ++ [c])) :=
  ⟨c, member, by simp [List.getLast?_cons]⟩

/-- The characters that end a test or a group. -/
def atomEnds : List Char := ['>', ']', ')']

/-- The characters that end a repetition which is written. -/
def signEnds : List Char := ['*', '+', '?', '}']

theorem endsIn_of_test {text : Text} {test : ComponentTest α} (written : Test text test) :
    EndsIn atomEnds text := by
  have angle : '>' ∈ atomEnds := by decide
  cases written with
  | single written =>
    cases written with
    | any => exact endsIn_cons_append angle '<' []
    | expression => exact endsIn_cons_append angle '<' _
  | set negated members => exact endsIn_cons_append (by decide) '[' _

theorem endsIn_of_repetition {text : Text} {bounds : Bounds}
    (written : Grammar.Repetition text bounds) : text = [] ∨ EndsIn signEnds text := by
  cases written with
  | once => exact .inl rfl
  | star => exact .inr ⟨'*', by decide, rfl⟩
  | plus => exact .inr ⟨'+', by decide, rfl⟩
  | question => exact .inr ⟨'?', by decide, rfl⟩
  | braces => exact .inr (endsIn_cons_append (by decide) '{' _)

/-- What stands before such a text has its repetition: none follows that could be taken for one of
its own. -/
def Settled (front after : Text) : Prop :=
  EndsIn atomEnds front → Unsigned after

/-! ### Elements -/

theorem nodesFrom_open (body : Text) (outer : List (List (Node α))) (nodes : List (Node α))
    (rest : Text) : nodesFrom body outer nodes ('(' :: rest) =
      nodesFrom body (nodes :: outer) [] rest := by
  rw [nodesFrom.eq_def]
  exact if_pos rfl

theorem nodesFrom_close_eq (body : Text) (outer : List (List (Node α)))
    (around nodes : List (Node α)) (rest : Text) :
    nodesFrom body (around :: outer) nodes (')' :: rest) = (do
      let (bounds, after) ← repetition rest
      nodesFrom body outer (.group nodes.reverse bounds :: around) after) := by
  rw [nodesFrom.eq_def]
  dsimp only
  rw [if_neg (by decide), if_pos rfl]
  split
  next failed =>
    rw [failed]
    rfl
  next found =>
    rw [found]
    rfl

theorem nodesFrom_close {rest after : Text} {bounds : Bounds}
    (repeated : repetition rest = .ok (bounds, after)) (body : Text)
    (outer : List (List (Node α))) (around nodes : List (Node α)) :
    nodesFrom body (around :: outer) nodes (')' :: rest) =
      nodesFrom body outer (.group nodes.reverse bounds :: around) after := by
  rw [nodesFrom_close_eq, repeated]
  rfl

theorem nodesFrom_test_eq {c : Char} (opening : c ≠ '(') (closing : c ≠ ')') (body : Text)
    (outer : List (List (Node α))) (nodes : List (Node α)) (rest : Text) :
    nodesFrom body outer nodes (c :: rest) = (do
      let (test, middle) ← testFrom (body.utf8Size - utf8Size (c :: rest)) c rest
      let (bounds, after) ← repetition middle
      nodesFrom body outer (.one test bounds :: nodes) after) := by
  rw [nodesFrom.eq_def]
  dsimp only
  rw [if_neg opening, if_neg closing]
  split
  next failed =>
    rw [failed]
    rfl
  next test middle found =>
    rw [found]
    change _ = repetition middle >>= _
    split
    next failed =>
      rw [failed]
      rfl
    next repeated =>
      rw [repeated]
      rfl

theorem nodesFrom_test {text middle after : Text} {test : ComponentTest α} {bounds : Bounds}
    (written : Test text test) (repeated : repetition middle = .ok (bounds, after)) (body : Text)
    (outer : List (List (Node α))) (nodes : List (Node α)) :
    nodesFrom body outer nodes (text ++ middle) =
      nodesFrom body outer (.one test bounds :: nodes) after := by
  obtain ⟨c, rest, rfl, ordinary⟩ : ∃ c rest, text = c :: rest ∧ c ≠ '(' ∧ c ≠ ')' := by
    rcases exists_eq_cons_of_test written with ⟨rest, rfl⟩ | ⟨rest, rfl⟩
    · exact ⟨_, _, rfl, by decide⟩
    · exact ⟨_, _, rfl, by decide⟩
  -- The offset is for errors only.
  have read (offset : Nat) : testFrom offset c (rest ++ middle) = .ok (test, middle) :=
    (testFrom_ok_iff _ _ _ _ _).mpr ⟨c :: rest, rfl, written⟩
  rw [List.cons_append, nodesFrom_test_eq ordinary.1 ordinary.2, read]
  change repetition middle >>= _ = _
  rw [repeated]
  rfl

theorem exists_eq_cons_of_element {text : Text} {node : Node α} (written : Element text node) :
    ∃ c rest, text = c :: rest ∧ (c = '<' ∨ c = '[' ∨ c = '(') := by
  cases written with
  | one test after =>
    rcases exists_eq_cons_of_test test with ⟨rest, rfl⟩ | ⟨rest, rfl⟩
    · exact ⟨_, _, rfl, .inl rfl⟩
    · exact ⟨_, _, rfl, .inr (.inl rfl)⟩
  | group => exact ⟨_, _, rfl, .inr (.inr rfl)⟩

/-- An element never begins like a repetition, so that one before it is read to its end. -/
theorem settled_append {front text after : Text} {nodes : List (Node α)}
    (written : Elements text nodes) (settled : Settled (front ++ text) after) :
    Settled front (text ++ after) := by
  intro last
  cases written with
  | nil =>
    rw [List.append_nil] at settled
    exact settled last
  | cons first rest =>
    obtain ⟨c, inner, rfl, bracket⟩ := exists_eq_cons_of_element first
    refine (unsigned_cons_iff c _).mpr ?_
    rcases bracket with rfl | rfl | rfl <;> decide

mutual

theorem nodesFrom_of_element {text : Text} {node : Node α} (written : Element text node)
    (body : Text) (outer : List (List (Node α))) (nodes : List (Node α)) {after : Text}
    (settled : Settled text after) :
    nodesFrom body outer nodes (text ++ after) = nodesFrom body outer (node :: nodes) after := by
  match written with
  | .one test later =>
    have repeated := repetition_append later fun once =>
      settled (by rw [once, List.append_nil]; exact endsIn_of_test test)
    rw [List.append_assoc]
    exact nodesFrom_test test repeated body outer nodes
  | .group inner later =>
    have repeated := repetition_append later fun once =>
      settled (by rw [once]; exact endsIn_cons_append (by decide) '(' _)
    -- The elements inside a group are followed by its closing parenthesis.
    rw [List.cons_append, List.append_assoc, List.cons_append, nodesFrom_open,
      nodesFrom_of_elements inner body (nodes :: outer) []
        fun _ => (unsigned_cons_iff ')' _).mpr (by decide),
      nodesFrom_close repeated, List.append_nil, List.reverse_reverse]

/-- The elements of a text are put before those that stand there already, last first. -/
theorem nodesFrom_of_elements {text : Text} {later : List (Node α)} (written : Elements text later)
    (body : Text) (outer : List (List (Node α))) (nodes : List (Node α)) {after : Text}
    (settled : Settled text after) :
    nodesFrom body outer nodes (text ++ after) =
      nodesFrom body outer (later.reverse ++ nodes) after := by
  match written with
  | .nil => rfl
  | .cons first rest =>
    rw [List.append_assoc,
      nodesFrom_of_element first body outer nodes (settled_append rest settled),
      nodesFrom_of_elements rest body outer _ fun last => settled (last.append _),
      List.reverse_cons, List.append_assoc]
    rfl

end

/-- What the open groups ask of the rest of a body: elements up to the closing parenthesis of the
innermost one, its repetition, and the same for the groups around it. -/
def Finishes : List (List (Node α)) → List (Node α) → Text → List (Node α) → Prop
  | [], nodes, text, result => ∃ later, Elements text later ∧ result = nodes.reverse ++ later
  | around :: outer, nodes, text, result =>
    ∃ inner later front bounds rest, text = inner ++ ')' :: (front ++ rest) ∧
      Elements inner later ∧ Grammar.Repetition front bounds ∧
      Finishes outer (.group (nodes.reverse ++ later) bounds :: around) rest result

theorem Finishes.element {outer : List (List (Node α))} {nodes result : List (Node α)}
    {text rest : Text} {node : Node α} (written : Element text node)
    (finishes : Finishes outer (node :: nodes) rest result) :
    Finishes outer nodes (text ++ rest) result := by
  cases outer with
  | nil =>
    obtain ⟨later, elements, rfl⟩ := finishes
    exact ⟨node :: later, .cons written elements, by simp⟩
  | cons around outer =>
    obtain ⟨inner, later, front, bounds, last, rfl, elements, repeated, finishes⟩ := finishes
    refine ⟨text ++ inner, node :: later, front, bounds, last, by simp, .cons written elements,
      repeated, ?_⟩
    simpa using finishes

/-- Every accepting run of the reader has elements behind it. -/
theorem finishes_of_nodesFrom {body text : Text} {outer : List (List (Node α))}
    {nodes result : List (Node α)} (read : nodesFrom body outer nodes text = .ok result) :
    Finishes outer nodes text result := by
  fun_induction nodesFrom body outer nodes text with
  | case1 outer nodes closed =>
    cases read
    rw [List.isEmpty_iff.mp closed]
    exact ⟨[], .nil, by simp⟩
  | case2 => cases read
  | case3 outer nodes rest ih =>
    -- The group is an element of those around it once its closing parenthesis is found.
    obtain ⟨inner, later, front, bounds, last, rfl, elements, repeated, finishes⟩ := ih read
    have group := Finishes.element (.group elements repeated) finishes
    simpa using group
  | case4 => cases read
  | case5 => cases read
  | case6 nodes rest around outer bounds after repeated _ ih =>
    -- The group that closes here has all of its elements already.
    obtain ⟨front, rfl, written, -⟩ := exists_of_repetition repeated
    simp only [List.unattach_reverse, List.unattach_attach] at ih
    exact ⟨[], [], front, bounds, after, rfl, .nil, written, by simpa using ih read⟩
  | case7 => cases read
  | case8 => cases read
  | case9 outer nodes c rest _ _ test middle tested bounds after repeated ih =>
    obtain ⟨first, whole, written⟩ := (testFrom_ok_iff _ _ _ _ _).mp tested
    obtain ⟨front, rfl, later, -⟩ := exists_of_repetition repeated
    rw [whole, ← List.append_assoc]
    exact (ih read).element (.one written later)

theorem nodesOf?_ok_iff (body : Text) (nodes : List (Node α)) :
    nodesOf? body = .ok nodes ↔ Elements body nodes := by
  rw [nodesOf?]
  constructor
  · intro read
    obtain ⟨later, written, rfl⟩ := finishes_of_nodesFrom read
    exact written
  · intro written
    have settled : Settled body [] := fun _ => nofun
    have read := nodesFrom_of_elements written body [] [] settled
    rw [List.append_nil, List.append_nil] at read
    rw [read, nodesFrom]
    simp

/-! ### Signs at the ends -/

theorem head?_of_elements {text : Text} {nodes : List (Node α)} (written : Elements text nodes) :
    text.head? ≠ some '^' := by
  cases written with
  | nil => exact nofun
  | cons first rest =>
    obtain ⟨c, inner, rfl, bracket⟩ := exists_eq_cons_of_element first
    intro same
    cases Option.some.inj same
    rcases bracket with caret | caret | caret <;> cases caret

theorem endsIn_of_element {text : Text} {node : Node α} (written : Element text node) :
    EndsIn (atomEnds ++ signEnds) text := by
  cases written with
  | @one text after test bounds tested repeated =>
    rcases endsIn_of_repetition repeated with rfl | sign
    · rw [List.append_nil]
      exact (endsIn_of_test tested).mono fun c => List.mem_append_left _
    · exact (sign.append text).mono fun c => List.mem_append_right _
  | @group inner after nodes bounds elements repeated =>
    rcases endsIn_of_repetition repeated with rfl | sign
    · exact endsIn_cons_append (by decide) '(' inner
    · have last := sign.append ('(' :: (inner ++ [')']))
      rw [List.cons_append, List.append_assoc] at last
      exact last.mono fun c => List.mem_append_right _

theorem endsIn_of_elements {text : Text} {nodes : List (Node α)} (written : Elements text nodes) :
    text = [] ∨ EndsIn (atomEnds ++ signEnds) text := by
  match written with
  | .nil => exact .inl rfl
  | .cons first rest =>
    rcases endsIn_of_elements rest with rfl | last
    · rw [List.append_nil]
      exact .inr (endsIn_of_element first)
    · exact .inr (last.append _)

theorem getLast?_of_elements {text : Text} {nodes : List (Node α)}
    (written : Elements text nodes) : text.getLast? ≠ some '$' := by
  rcases endsIn_of_elements written with rfl | ⟨c, member, same⟩
  · exact nofun
  · rw [same]
    rintro ⟨⟩
    exact absurd member (by decide)

theorem endAnchor_append (anchored : Bool) {body : Text} (plain : body.getLast? ≠ some '$') :
    endAnchor (body ++ if anchored then ['$'] else []) = (anchored, body) := by
  cases anchored with
  | true => simp [endAnchor, Text.dropLast?]
  | false => simp [endAnchor, Text.dropLast?, plain]

theorem exists_endAnchor (text : Text) :
    text = (endAnchor text).2 ++ if (endAnchor text).1 = true then ['$'] else [] := by
  rw [endAnchor, Text.dropLast?]
  by_cases dollar : text.getLast? = some '$'
  · obtain ⟨front, rfl⟩ := List.getLast?_eq_some_iff.mp dollar
    simp
  · simp [dollar]

theorem compile?_ok_iff (text : Text) (p : Pattern α) :
    compile? text = .ok p ↔ Whole text p := by
  rw [compile?]
  constructor
  · intro compiled
    dsimp only at compiled
    split at compiled
    next nodes read =>
      cases compiled
      refine .intro _ _ ((nodesOf?_ok_iff _ _).mp read) ?_
      rw [List.append_assoc, ← exists_endAnchor, ← exists_startAnchor]
    next => cases compiled
  · rintro ⟨anchoredStart, anchoredEnd, written, rfl⟩
    rename_i body nodes
    -- A body that is empty leaves a sign of the end, which is none of the beginning.
    have plain : (body ++ if anchoredEnd = true then ['$'] else []).head? ≠ some '^' := by
      cases body with
      | nil => cases anchoredEnd <;> decide
      | cons c rest =>
        change (c :: rest).head? ≠ some '^'
        exact head?_of_elements written
    rw [List.append_assoc, startAnchor_append anchoredStart plain]
    simp only [endAnchor_append anchoredEnd (getLast?_of_elements written),
      (nodesOf?_ok_iff body nodes).mpr written]

theorem compile?_error_iff (text : Text) (e : PatternError) :
    (compile? text : Except PatternError (Pattern α)) = .error e ↔ e.pattern = text ∧
      (nodesOf? (endAnchor (startAnchor text).2).2 : Except Fault (List (Node α))) =
        .error e.fault := by
  rw [compile?]
  dsimp only
  split
  next read => simp [read]
  next fault wrong =>
    rw [wrong, Except.error.injEq, Except.error.injEq]
    constructor
    · rintro rfl
      exact ⟨rfl, rfl⟩
    · rintro ⟨rfl, rfl⟩
      rfl

theorem pattern_of_compile?_error {text : Text} {e : PatternError}
    (failed : (compile? text : Except PatternError (Pattern α)) = .error e) : e.pattern = text :=
  ((compile?_error_iff text e).mp failed).1

/-- A text is read as the pattern that the grammar has for it, of which there is no more than one.
If there is none, the error carries the whole text. -/
theorem compile?_grammar (text : Text) :
    (∀ p : Pattern α, compile? text = .ok p ↔ Whole text p) ∧
    (∀ p q : Pattern α, Whole text p → Whole text q → p = q) ∧
    ((∀ p : Pattern α, ¬Whole text p) ↔
      ∃ e, (compile? text : Except PatternError (Pattern α)) = .error e ∧ e.pattern = text) := by
  refine ⟨compile?_ok_iff text, ?_, ?_⟩
  · intro p q first second
    rw [← compile?_ok_iff] at first second
    exact Except.ok.inj (first.symm.trans second)
  · simp only [← compile?_ok_iff]
    cases read : (compile? text : Except PatternError (Pattern α)) with
    | ok p => simp
    | error e => simp [pattern_of_compile?_error read]

end TrustSchema.Pattern
