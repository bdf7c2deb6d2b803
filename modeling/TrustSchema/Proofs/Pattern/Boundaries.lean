import TrustSchema.Proofs.Pattern.Acceptance
import TrustSchema.Proofs.Pattern.Cursor

/-!
Offsets in a body stay on the boundaries of its characters. Wherever the reader by offsets stands,
the body is cut in two there, and it does with the offset what the other reader does with the text
after it. So both readers give the same, and no assertion about offsets is ever broken.
-/

namespace TrustSchema.Pattern

open Text

variable {α β γ : Type}

/-- A reader by offsets does what a reader of texts does: it stops with the same fault, or gives the
same and goes on where the other one's rest begins. -/
def Agrees (body : Text) (readAt : Except Stop (β × Nat)) : Except Fault (β × Text) → Prop
  | .ok (value, after) => ∃ before, body = before ++ after ∧ readAt = .ok (value, utf8Size before)
  | .error fault => readAt = .error (.fault fault)

/-! ### Boundaries -/

theorem utf8ByteSize_ofList (text : Text) : (String.ofList text).utf8ByteSize = utf8Size text := by
  induction text with
  | nil => rfl
  | cons c rest ih => rw [String.ofList_cons, String.utf8ByteSize_append, ih]; simp

theorem boundary_iff (text : Text) (pos : Nat) :
    Boundary text pos ↔ ∃ before after, text = before ++ after ∧ utf8Size before = pos := by
  rw [Boundary, String.Pos.Raw.isValid_iff_exists_append]
  constructor
  · rintro ⟨before, after, whole, place⟩
    refine ⟨before.toList, after.toList, ?_, ?_⟩
    · rw [← String.toList_append, ← whole, String.toList_ofList]
    · rw [← utf8ByteSize_ofList, String.ofList_toList]
      exact (congrArg String.Pos.Raw.byteIdx place).symm
  · rintro ⟨before, after, rfl, rfl⟩
    refine ⟨String.ofList before, String.ofList after, String.ofList_append, ?_⟩
    rw [String.Pos.Raw.ext_iff, String.byteIdx_rawEndPos, utf8ByteSize_ofList]

/-- The two octets of one character have a boundary at both ends only. -/
example : Boundary ['é'] 0 ∧ ¬Boundary ['é'] 1 ∧ Boundary ['é'] 2 := by decide

theorem boundary_append (before after : Text) : Boundary (before ++ after) (utf8Size before) :=
  (boundary_iff _ _).mpr ⟨before, after, rfl, rfl⟩

section

variable {body front text : Text}

theorem check_of_holds {a : Assertion} (holds : a.Holds body) : check body a = pure () :=
  if_pos holds

theorem check_position (whole : body = front ++ text) :
    check body (.position (utf8Size front)) = pure () := by
  subst whole
  refine check_of_holds ⟨?_, boundary_append front text⟩
  rw [utf8Size_append]
  exact Nat.le_add_right _ _

theorem moveTo_eq (whole : body = front ++ text) :
    moveTo body (utf8Size front) = pure (utf8Size front) := by
  rw [moveTo, check_position whole, pure_bind]

theorem splitOctets_append (before after : Text) :
    splitOctets (utf8Size before) (before ++ after) = (before, after) := by
  induction before with
  | nil => cases after <;> rfl
  | cons c rest ih =>
    have positive : 0 < c.utf8Size + utf8Size rest := Nat.add_pos_left c.utf8Size_pos _
    obtain ⟨size, same⟩ := Nat.exists_eq_add_one.mpr positive
    rw [utf8Size_cons, same, List.cons_append, splitOctets, ← same, Nat.add_sub_cancel_left, ih]

theorem slice_eq {middle after : Text} (whole : body = front ++ (middle ++ after)) :
    slice body (utf8Size front) (utf8Size front + utf8Size middle) = pure middle := by
  subst whole
  have stop : Boundary (front ++ (middle ++ after)) (utf8Size front + utf8Size middle) := by
    rw [← List.append_assoc, ← utf8Size_append]
    exact boundary_append (front ++ middle) after
  have holds : (Assertion.slice (utf8Size front) (utf8Size front + utf8Size middle)).Holds
      (front ++ (middle ++ after)) := ⟨Nat.le_add_right _ _, boundary_append front _, stop⟩
  rw [slice, check_of_holds holds, pure_bind, splitOctets_append, Nat.add_sub_cancel_left,
    splitOctets_append]

theorem slice_rest (whole : body = front ++ text) :
    slice body (utf8Size front) (utf8Size body) = pure text := by
  rw [whole, utf8Size_append]
  exact slice_eq (by rw [List.append_nil])

/-- A reader that leaves less of a body has gone further. -/
theorem lt_of_shorter {before after : Text} (whole : body = front ++ text)
    (later : body = before ++ after) (shorter : after.length < text.length) :
    utf8Size front < utf8Size before := by
  rcases List.append_eq_append_iff.mp (whole.symm.trans later) with
    ⟨piece, rfl, rfl⟩ | ⟨piece, rfl, rfl⟩
  · cases piece with
    | nil => exact absurd shorter (Nat.lt_irrefl _)
    | cons c piece =>
      have := c.utf8Size_pos
      rw [utf8Size_append, utf8Size_cons]
      omega
  · rw [List.length_append] at shorter
    omega

/-! ### Octets -/

/-- The first octet of a character. -/
def lead (c : Char) : UInt8 :=
  (String.utf8EncodeChar c).headD 0

/-- An octet of ASCII begins no character but its own. -/
theorem lead_eq_iff {a : Char} (ascii : a.toNat ≤ 127) (c : Char) : lead c = a.toUInt8 ↔ c = a := by
  have code : c.val.toNat = c.toNat := rfl
  have octet : a.toUInt8.toNat = a.toNat := Nat.mod_eq_of_lt (show a.toNat < 256 by omega)
  rw [← UInt8.toNat_inj, ← Char.toNat_inj, octet, lead, String.utf8EncodeChar]
  -- Only the first of the four forms of a character begins below 128.
  split
  · simp
    omega
  split
  · simp
    omega
  split
  · simp
    omega
  · simp
    omega

theorem octetAt_end : octetAt front (utf8Size front) = none := by
  rw [octetAt, List.getElem?_eq_none_iff, length_toUtf8]

theorem octetAt_front {c : Char} (whole : body = front ++ c :: text) :
    octetAt body (utf8Size front) = some (lead c) := by
  -- The octets before are as many as the offset says.
  rw [octetAt, whole, toUtf8_append, ← length_toUtf8, List.getElem?_append_right le_rfl,
    Nat.sub_self, ← List.head?_eq_getElem?, toUtf8, List.flatMap_cons, List.head?_append]
  have nonempty : String.utf8EncodeChar c ≠ [] := by simp
  rw [lead, List.headD_eq_head?_getD, List.head?_eq_some_head nonempty]
  rfl

theorem octetAt_eq_iff {a : Char} (ascii : a.toNat ≤ 127) (whole : body = front ++ text) :
    octetAt body (utf8Size front) = some a.toUInt8 ↔ text.head? = some a := by
  cases text with
  | nil =>
    rw [List.append_nil] at whole
    rw [whole, octetAt_end]
    simp
  | cons c rest =>
    rw [octetAt_front whole, Option.some_inj, lead_eq_iff ascii, List.head?_cons, Option.some_inj]

theorem size_next {c : Char} (one : c.utf8Size = 1) :
    utf8Size front + 1 = utf8Size (front ++ [c]) := by
  rw [utf8Size_append, utf8Size_cons, one, utf8Size_nil]

theorem moveTo_next {c : Char} (one : c.utf8Size = 1) (whole : body = front ++ c :: text) :
    moveTo body (utf8Size front + 1) = pure (utf8Size (front ++ [c])) := by
  rw [size_next one]
  exact moveTo_eq (by rw [whole, List.append_assoc]; rfl)

/-! ### Readers of one piece -/

theorem Agrees.bind {read : Except Fault (β × Text)} {readAt : Except Stop (β × Nat)}
    {next : β × Text → Except Fault (γ × Text)} {nextAt : β × Nat → Except Stop (γ × Nat)}
    (first : Agrees body readAt read)
    (later : ∀ value before after, body = before ++ after →
      Agrees body (nextAt (value, utf8Size before)) (next (value, after))) :
    Agrees body (readAt >>= nextAt) (read >>= next) := by
  cases read with
  | error fault =>
    cases (first : readAt = _)
    rfl
  | ok found =>
    obtain ⟨value, after⟩ := found
    obtain ⟨before, whole, rfl⟩ := first
    exact later value before after whole

theorem Agrees.map {read : Except Fault (β × Text)} {readAt : Except Stop (β × Nat)} (f : β → γ)
    (first : Agrees body readAt read) :
    Agrees body (do let (value, next) ← readAt; return (f value, next))
      (read.map fun (value, after) => (f value, after)) :=
  first.bind fun _ before _ whole => ⟨before, whole, rfl⟩

theorem agrees_enclosed {c : Char} (one : c.utf8Size = 1) (stop : Char) (single : stop.utf8Size = 1)
    (missing : Fault) (value? : Text → Except Fault β) (whole : body = front ++ c :: text) :
    Agrees body (enclosed body stop missing value? (utf8Size front))
      ((cutAt stop text).elim (.error missing) fun (written, after) =>
        (value? written).map (·, after)) := by
  have inside : body = (front ++ [c]) ++ text := by rw [whole, List.append_assoc]; rfl
  rw [enclosed, check_position whole, pure_bind, size_next one, slice_rest inside, pure_bind, find?]
  cases cut : cutAt stop text with
  | none => rfl
  | some found =>
    obtain ⟨written, after⟩ := found
    obtain ⟨rfl, -⟩ := cutAt_eq_some cut
    -- What was found is one octet long, so that the text after it begins at the next offset.
    have closed : body = ((front ++ [c]) ++ written) ++ stop :: after := by
      rw [inside, List.append_assoc _ written]
    dsimp only [Option.map_some, Option.elim_some]
    rw [← utf8Size_append, moveTo_next single closed, pure_bind, utf8Size_append _ written,
      slice_eq inside, pure_bind]
    cases value? written with
    | error fault => rfl
    | ok value => exact ⟨(front ++ [c] ++ written) ++ [stop], by rw [closed]; simp, rfl⟩

theorem agrees_moveTo {c : Char} (one : c.utf8Size = 1) (whole : body = front ++ c :: text)
    (value : β) :
    Agrees body (do return (value, ← moveTo body (utf8Size front + 1))) (.ok (value, text)) := by
  refine ⟨front ++ [c], by rw [whole, List.append_assoc]; rfl, ?_⟩
  rw [moveTo_next one whole, pure_bind]
  rfl

theorem head?_ne {a : Char} (absent : ∀ rest, text = a :: rest → False) : text.head? ≠ some a := by
  cases text with
  | nil => nofun
  | cons c rest =>
    rintro ⟨⟩
    exact absurd rfl (absent rest)

theorem agrees_repetition (whole : body = front ++ text) :
    Agrees body (repetitionAt body (utf8Size front)) (repetition text) := by
  have sign {a : Char} (ascii : a.toNat ≤ 127) := octetAt_eq_iff ascii whole
  rw [repetitionAt, check_position whole, pure_bind]
  simp only [sign (a := '*') (by decide), sign (a := '+') (by decide), sign (a := '?') (by decide),
    sign (a := '{') (by decide)]
  fun_cases repetition text with
  | case1 | case2 | case3 => exact agrees_moveTo rfl whole _
  | case4 rest written after cut =>
    have agrees := agrees_enclosed (c := '{') rfl '}' rfl .unterminatedBounds boundsOf? whole
    rwa [cut] at agrees
  | case5 rest cut =>
    have agrees := agrees_enclosed (c := '{') rfl '}' rfl .unterminatedBounds boundsOf? whole
    rwa [cut] at agrees
  | case6 =>
    rename_i star plus question brace
    rw [if_neg (head?_ne star), if_neg (head?_ne plus), if_neg (head?_ne question),
      if_neg (head?_ne brace)]
    exact ⟨front, whole, rfl⟩

section

variable [ComponentLanguage α]

theorem agrees_component (whole : body = front ++ '<' :: text) :
    Agrees body (componentAt body (utf8Size front)) (component (α := α) text) := by
  have agrees := agrees_enclosed (c := '<') rfl '>' rfl .unterminatedComponent
    (componentOf? (α := α)) whole
  rw [component]
  split <;> rename_i cut <;> rwa [cut] at agrees

theorem membersAt_front {c : Char} (whole : body = front ++ c :: text) :
    membersAt (α := α) body (utf8Size front) =
      if c = '<' then do
        let (member, next) ← componentAt body (utf8Size front)
        if utf8Size front < next then
          let (members, last) ← membersAt body next
          return (member :: members, last)
        else throw (.broken (.progress (utf8Size front) next))
      else if c = ']' then return ([], ← moveTo body (utf8Size front + 1))
      else throw (.fault .notInSet) := by
  rw [membersAt]
  split
  next here =>
    rw [octetAt_front whole] at here
    cases here
  next d here =>
    rw [octetAt_front whole] at here
    cases here
    simp only [lead_eq_iff (a := '<') (by decide), lead_eq_iff (a := ']') (by decide)]
    rfl

theorem agrees_members (whole : body = front ++ text) :
    Agrees body (membersAt body (utf8Size front)) (setMembers (α := α) text) := by
  fun_induction setMembers (α := α) text generalizing front with
  | case1 =>
    rw [List.append_nil] at whole
    rw [membersAt]
    split
    next => rfl
    next here =>
      rw [whole, octetAt_end] at here
      cases here
  | case2 rest =>
    rw [membersAt_front whole, if_neg (by decide), if_pos rfl]
    exact agrees_moveTo rfl whole []
  | case3 rest fault failed =>
    have one : componentAt (α := α) body (utf8Size front) = .error (.fault fault) := by
      have agrees := agrees_component (α := α) whole
      rwa [failed] at agrees
    rw [membersAt_front whole, if_pos rfl, one]
    rfl
  | case4 rest member middle one _ ih =>
    have first := agrees_component (α := α) whole
    rw [one] at first
    obtain ⟨before, later, read⟩ := first
    rw [membersAt_front whole, if_pos rfl, read]
    change Agrees body (if _ then _ else _) _
    -- A member takes some text, so that the next one begins further on.
    have := lt_of_shorter whole later ((component_length one).trans (Nat.lt_succ_self _))
    rw [if_pos this]
    exact Agrees.map (member :: ·) (ih later)
  | case5 c rest closing opening =>
    rw [membersAt_front whole, if_neg opening, if_neg closing]
    rfl

theorem agrees_negation (whole : body = front ++ text) :
    Agrees body (negationAt body (utf8Size front)) (.ok (setNegation text)) := by
  rw [negationAt]
  simp only [octetAt_eq_iff (a := '^') (by decide) whole]
  fun_cases setNegation text with
  | case1 => exact agrees_moveTo rfl whole true
  | case2 =>
    rename_i caret
    rw [if_neg (head?_ne caret)]
    exact ⟨front, whole, rfl⟩

theorem testSet_eq (text : Text) :
    testSet (α := α) text = (do
      let (negated, rest) ← .ok (setNegation text)
      let (members, after) ← setMembers rest
      if members.isEmpty then throw .emptySet else return (.set negated members, after)) := by
  rw [testSet]
  change _ = setMembers (setNegation text).2 >>= _
  rcases setMembers (α := α) (setNegation text).2 with fault | ⟨_ | ⟨member, members⟩, after⟩
  all_goals rfl

theorem agrees_set (whole : body = front ++ '[' :: text) :
    Agrees body (setAt body (utf8Size front)) (testSet (α := α) text) := by
  have inside : body = (front ++ ['[']) ++ text := by rw [whole, List.append_assoc]; rfl
  rw [setAt, check_position whole, pure_bind, moveTo_next rfl whole, pure_bind, testSet_eq]
  refine Agrees.bind (agrees_negation inside) fun negated before rest behind => ?_
  refine Agrees.bind (agrees_members behind) fun members before after behind => ?_
  -- A set without members is refused only after its closing bracket was found.
  dsimp only
  split
  · rfl
  · exact ⟨before, behind, rfl⟩

theorem agrees_test {c : Char} (whole : body = front ++ c :: text) :
    Agrees body (testAt body (lead c) (utf8Size front))
      (testFrom (α := α) (utf8Size front) c text) := by
  have sign {a : Char} (ascii : a.toNat ≤ 127) := lead_eq_iff ascii c
  simp only [testAt, testFrom, sign (a := '<') (by decide), sign (a := '[') (by decide),
    sign (a := '*') (by decide), sign (a := '+') (by decide), sign (a := '?') (by decide),
    sign (a := '{') (by decide), sign (a := '^') (by decide), sign (a := '$') (by decide)]
  split
  next angle =>
    subst angle
    exact Agrees.map ComponentTest.single (agrees_component whole)
  split
  next bracket =>
    subst bracket
    exact agrees_set whole
  split
  next repeated =>
    -- The sign is told by its octet, which is its code.
    rcases repeated with rfl | rfl | rfl | rfl <;> rfl
  split
  next => rfl
  split
  next => rfl
  next =>
    rw [slice_rest whole, pure_bind]
    rfl

/-! ### Readers of elements -/

/-- What is read by offsets of the elements in the rest of a body, when `whole` is what the other
reader gives in the end: the same fault, or the elements of the innermost group, and then the other
reader goes on after them with the same rest. -/
def Follows (body text : Text) (outer : List (List (Node α)))
    (whole : Except Fault (List (Node α))) : Except Stop (List (Node α) × Nat) → Prop
  | .error stop => ∃ fault, stop = .fault fault ∧ whole = .error fault
  | .ok (nodes, pos) => ∃ before after, body = before ++ after ∧ pos = utf8Size before ∧
      after.length ≤ text.length ∧ whole = nodesFrom body outer nodes.reverse after ∧
      (after = [] ∨ outer ≠ [] ∧ after.head? = some ')')

/-- What the reader of texts does after an element that still waits for its repetition. -/
def goOn (body : Text) (outer : List (List (Node α))) (nodes : List (Node α))
    (node : Bounds → Node α) (middle : Text) : Except Fault (List (Node α)) :=
  repetition middle >>= fun found => nodesFrom body outer (node found.1 :: nodes) found.2

/-- The same by offsets, for an element that began at the offset `start`. -/
def goOnAt (body : Text) (depth : Nat) (nodes : List (Node α)) (start : Nat)
    (found : (Bounds → Node α) × Nat) : Except Stop (List (Node α) × Nat) :=
  repetitionAt body found.2 >>= fun next =>
    if start < next.2 then elementsAt body depth (found.1 next.1 :: nodes) next.2
    else throw (.broken (.progress start next.2))

variable {outer : List (List (Node α))}

theorem Follows.bind {read : Except Fault (β × Text)} {readAt : Except Stop (β × Nat)}
    {next : β × Text → Except Fault (List (Node α))}
    {nextAt : β × Nat → Except Stop (List (Node α) × Nat)} (first : Agrees body readAt read)
    (later : ∀ value before after, body = before ++ after → read = .ok (value, after) →
      Follows body text outer (next (value, after)) (nextAt (value, utf8Size before))) :
    Follows body text outer (read >>= next) (readAt >>= nextAt) := by
  cases read with
  | error fault =>
    cases (first : readAt = _)
    exact ⟨fault, rfl, rfl⟩
  | ok found =>
    obtain ⟨value, after⟩ := found
    obtain ⟨before, whole, rfl⟩ := first
    exact later value before after whole rfl

theorem Follows.mono {shorter : Text} {whole : Except Fault (List (Node α))}
    {result : Except Stop (List (Node α) × Nat)} (within : shorter.length ≤ text.length)
    (follows : Follows body shorter outer whole result) : Follows body text outer whole result := by
  cases result with
  | error stop => exact follows
  | ok found =>
    obtain ⟨before, after, split, place, length, rest⟩ := follows
    exact ⟨before, after, split, place, length.trans within, rest⟩

theorem elementsAt_front {c : Char} (whole : body = front ++ c :: text) (depth : Nat)
    (nodes : List (Node α)) :
    elementsAt body depth nodes (utf8Size front) =
      if c = ')' then
        if 0 < depth then pure (nodes.reverse, utf8Size front) else throw (.fault .unopenedGroup)
      else if c = '(' then
        elementsAt body (depth + 1) [] (utf8Size front + 1) >>= fun found =>
          if octetAt body found.2 = some ')'.toUInt8 then
            moveTo body (found.2 + 1) >>= fun middle =>
              goOnAt body depth nodes (utf8Size front) (.group found.1, middle)
          else throw (.fault .unclosedGroup)
      else
        testAt body (lead c) (utf8Size front) >>= fun found =>
          goOnAt body depth nodes (utf8Size front) (.one found.1, found.2) := by
  rw [elementsAt, check_position whole, pure_bind]
  split
  next here =>
    rw [octetAt_front whole] at here
    cases here
  next d here =>
    rw [octetAt_front whole] at here
    cases here
    simp only [lead_eq_iff (a := '(') (by decide), lead_eq_iff (a := ')') (by decide)]
    rfl

theorem nodesFrom_unopened (body : Text) (nodes : List (Node α)) (rest : Text) :
    nodesFrom body [] nodes (')' :: rest) = .error .unopenedGroup := by
  rw [nodesFrom.eq_def]
  rfl

theorem nodesFrom_unclosed (body : Text) (around : List (Node α)) (outer : List (List (Node α)))
    (nodes : List (Node α)) :
    nodesFrom body (around :: outer) nodes [] = .error .unclosedGroup := by
  rw [nodesFrom]
  rfl

/-- What the reader by offsets gives at the end of a group or of the body. -/
theorem Follows.stop (whole : body = front ++ text) (nodes : List (Node α))
    (ended : text = [] ∨ outer ≠ [] ∧ text.head? = some ')') :
    Follows body text outer (nodesFrom body outer nodes text)
      (pure (nodes.reverse, utf8Size front)) :=
  ⟨front, text, whole, rfl, le_rfl, by rw [List.reverse_reverse], ended⟩

theorem elementsAt_end (depth : Nat) (nodes : List (Node α)) :
    elementsAt front depth nodes (utf8Size front) = pure (nodes.reverse, utf8Size front) := by
  rw [elementsAt, check_position (List.append_nil front).symm, pure_bind]
  split
  next => rfl
  next here =>
    rw [octetAt_end] at here
    cases here

/-- A group is read to its closing parenthesis, and its repetition is what comes next. -/
theorem Follows.close {rest : Text} {nodes : List (Node α)} {start : Nat}
    {whole : Except Fault (List (Node α))} {result : Except Stop (List (Node α) × Nat)}
    (inside : Follows body rest (nodes :: outer) whole result)
    (later : ∀ members before middle, body = before ++ middle → middle.length ≤ rest.length →
      Follows body text outer (goOn body outer nodes (.group members) middle)
        (goOnAt body outer.length nodes start (.group members, utf8Size before))) :
    Follows body text outer whole
      (result >>= fun found =>
        if octetAt body found.2 = some ')'.toUInt8 then
          moveTo body (found.2 + 1) >>= fun middle =>
            goOnAt body outer.length nodes start (.group found.1, middle)
        else throw (.fault .unclosedGroup)) := by
  cases result with
  | error stop => exact inside
  | ok found =>
    obtain ⟨members, _⟩ := found
    obtain ⟨before, after, behind, rfl, length, same, ended⟩ := inside
    have sign := octetAt_eq_iff (a := ')') (by decide) behind
    rw [same]
    change Follows body text outer _
      (if octetAt body (utf8Size before) = some ')'.toUInt8 then _ else _)
    cases after with
    | nil =>
      rw [if_neg (mt sign.mp nofun)]
      exact ⟨_, rfl, nodesFrom_unclosed body nodes outer members.reverse⟩
    | cons d after =>
      -- Nothing but a closing parenthesis ends the elements before the end of the body.
      obtain rfl : d = ')' := by simpa using ended
      rw [if_pos (sign.mpr rfl), moveTo_next rfl behind, pure_bind, nodesFrom_close_eq,
        List.reverse_reverse]
      exact later members _ after (behind.trans (List.append_cons _ _ _)) (Nat.le_of_lt length)

theorem follows_goOnAt {before middle : Text} (node : Bounds → Node α) (nodes : List (Node α))
    (whole : body = front ++ text) (reached : body = before ++ middle)
    (length : middle.length < text.length)
    (later : ∀ bounds before after, body = before ++ after → after.length < text.length →
      Follows body after outer (nodesFrom body outer (node bounds :: nodes) after)
        (elementsAt body outer.length (node bounds :: nodes) (utf8Size before))) :
    Follows body text outer (goOn body outer nodes node middle)
      (goOnAt body outer.length nodes (utf8Size front) (node, utf8Size before)) := by
  refine Follows.bind (agrees_repetition reached) fun bounds before after behind repeated => ?_
  have shorter : after.length < text.length := (repetition_length repeated).trans_lt length
  dsimp only
  rw [if_pos (lt_of_shorter whole behind shorter)]
  exact (later bounds before after behind shorter).mono shorter.le

/-- Elements are read alike from every place in a body. The reader by offsets calls itself for a
group, where the other one keeps the groups that are open. -/
theorem follows_elementsAt (whole : body = front ++ text) (outer : List (List (Node α)))
    (nodes : List (Node α)) :
    Follows body text outer (nodesFrom body outer nodes text)
      (elementsAt body outer.length nodes (utf8Size front)) := by
  -- By the length of the rest: each pass leaves less of it, and so does the inside of a group.
  induction size : text.length using Nat.strong_induction_on
    generalizing front text outer nodes with
  | _ size ih =>
    subst size
    cases text with
    | nil =>
      obtain rfl := whole.trans (List.append_nil front)
      rw [elementsAt_end]
      exact .stop whole nodes (.inl rfl)
    | cons c rest =>
      rw [elementsAt_front whole]
      by_cases closing : c = ')'
      · subst closing
        rw [if_pos rfl]
        cases outer with
        | nil => exact ⟨_, rfl, nodesFrom_unopened body nodes rest⟩
        | cons around outer => exact .stop whole nodes (.inr ⟨List.cons_ne_nil _ _, rfl⟩)
      rw [if_neg closing]
      have onward (node : Bounds → Node α) {before middle : Text}
          (reached : body = before ++ middle) (length : middle.length ≤ rest.length) :=
        follows_goOnAt node nodes whole reached (Nat.lt_succ_of_le length)
          fun bounds before after behind shorter => ih _ shorter behind outer _ rfl
      by_cases opening : c = '('
      · subst opening
        rw [if_pos rfl, nodesFrom_open, size_next (c := '(') rfl]
        have inside := ih rest.length (Nat.lt_succ_self _)
          (whole.trans (List.append_cons front '(' rest)) (nodes :: outer) [] rfl
        exact inside.close fun members before middle => onward (.group members)
      · rw [if_neg opening, nodesFrom_test_eq opening closing, whole, utf8Size_append_sub, ← whole]
        refine Follows.bind (agrees_test whole) fun test before middle reached tested => ?_
        exact onward (.one test) reached (testFrom_length tested).le

theorem elementsAt_body (body : Text) :
    (elementsAt (α := α) body 0 [] 0).map Prod.fst = (nodesOf? body).mapError .fault := by
  have follows := follows_elementsAt (α := α) (List.nil_append body).symm [] []
  change Follows _ _ _ (nodesOf? body) (elementsAt body 0 [] 0) at follows
  generalize elementsAt (α := α) body 0 [] 0 = result at follows
  cases result with
  | error stop =>
    obtain ⟨fault, rfl, same⟩ := follows
    rw [same]
    rfl
  | ok found =>
    obtain ⟨nodes, _⟩ := found
    obtain ⟨before, after, -, -, -, same, ended⟩ := follows
    -- Outside of groups nothing but the end of the body ends the elements.
    obtain rfl : after = [] := ended.resolve_right fun closing => closing.1 rfl
    rw [same, nodesFrom, List.isEmpty_nil, if_pos rfl, List.reverse_reverse]
    rfl

end

end

theorem compileAt?_eq [ComponentLanguage α] (text : Text) :
    compileAt? (α := α) text = (compile? text).mapError fun e => .fault e.fault := by
  have same := elementsAt_body (α := α) (endAnchor (startAnchor text).2).2
  rw [compileAt?, compile?]
  dsimp only
  generalize elementsAt (α := α) (endAnchor (startAnchor text).2).2 0 [] 0 = readAt at same
  generalize nodesOf? (α := α) (endAnchor (startAnchor text).2).2 = read at same
  cases read with
  | error fault =>
    cases readAt with
    | error stop =>
      cases same
      rfl
    | ok found => cases same
  | ok nodes =>
    cases readAt with
    | error stop => cases same
    | ok found =>
      cases same
      rfl

/-- Offsets in a pattern are safe, whatever the text is. The reader by offsets gives what the reader
of patterns gives, with no assertion ever broken: wherever it stands a character begins or the body
ends, text is taken between such places only, and every element brings it further. -/
theorem compileAt?_safe [ComponentLanguage α] (text : Text) :
    (compileAt? (α := α) text = (compile? text).mapError fun e => .fault e.fault) ∧
      ∀ a, compileAt? (α := α) text ≠ .error (.broken a) := by
  refine ⟨compileAt?_eq text, fun a broken => ?_⟩
  rw [compileAt?_eq] at broken
  generalize compile? (α := α) text = read at broken
  cases read <;> cases broken

end TrustSchema.Pattern
