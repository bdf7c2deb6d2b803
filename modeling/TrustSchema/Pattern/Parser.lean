import TrustSchema.Pattern.Basic
import TrustSchema.Pattern.Counts

/-!
Reading name patterns. A leading `^` and a trailing `$` are taken off first, and what is between
them is the body. Its elements are read one after another; the groups that are open are kept,
innermost first, each with the elements before it. A reader gives the text after what it read, and
offsets are told from how much of the body is left.
-/

namespace TrustSchema.Pattern

variable {α : Type}

section readers

variable [ComponentLanguage α]

/-- The test that a text between angle brackets writes. -/
def componentOf? (written : Text) : Except Fault (ComponentPattern α) :=
  if written.isEmpty then .ok .any
  else
    match ComponentLanguage.compile written with
    | .ok test => .ok (.expression test)
    | .error cause => .error (.invalidComponent written cause)

/-- A test on one component, from after its opening bracket, and the text after its closing one. -/
def component (text : Text) : Except Fault (ComponentPattern α × Text) :=
  match Text.cutAt '>' text with
  | none => .error .unterminatedComponent
  | some (written, after) => (componentOf? written).map (·, after)

theorem component_length {text after : Text} {member : ComponentPattern α}
    (read : component text = .ok (member, after)) : after.length < text.length := by
  unfold component at read
  split at read
  · simp at read
  · rename_i written later cut
    obtain ⟨member, inner, same⟩ := Text.ok_of_map read
    obtain ⟨-, rfl⟩ := Prod.mk.injEq .. ▸ same
    exact Text.cutAt_length cut

/-- The members of a set up to its closing bracket, and the text after that. -/
def setMembers (text : Text) : Except Fault (List (ComponentPattern α) × Text) :=
  match text with
  | [] => .error .unterminatedSet
  | c :: rest =>
    if c = ']' then .ok ([], rest)
    else if c = '<' then
      match _read : component (α := α) rest with
      | .error fault => .error fault
      | .ok (member, after) =>
        (setMembers after).map fun (members, last) => (member :: members, last)
    else .error .notInSet
termination_by text.length
decreasing_by
  exact Nat.lt_succ_of_lt (component_length _read)

theorem setMembers_length {text after : Text} {members : List (ComponentPattern α)}
    (read : setMembers text = .ok (members, after)) : after.length < text.length := by
  fun_induction setMembers (α := α) text generalizing members after with
  | case1 | case3 | case5 => simp at read
  | case2 rest =>
    simp only [Except.ok.injEq, Prod.mk.injEq] at read
    simp [← read.2]
  | case4 rest member middle one _ ih =>
    have first := component_length one
    obtain ⟨⟨later, last⟩, inner, same⟩ := Text.ok_of_map read
    obtain ⟨-, rfl⟩ := Prod.mk.injEq .. ▸ same
    have second := ih inner
    simp only [List.length_cons]
    omega

/-- A caret at the beginning of a set, which negates it, and the text after it. -/
def setNegation (text : Text) : Bool × Text :=
  match text with
  | '^' :: rest => (true, rest)
  | _ => (false, text)

theorem setNegation_length (text : Text) : (setNegation text).2.length ≤ text.length := by
  unfold setNegation
  split
  · exact Nat.le_succ _
  · exact Nat.le_refl _

/-- A set of tests, from after its opening bracket, and the text after its closing one. -/
def testSet (text : Text) : Except Fault (ComponentTest α × Text) :=
  match setMembers (α := α) (setNegation text).2 with
  | .error fault => .error fault
  | .ok ([], _) => .error .emptySet
  | .ok (member :: members, after) => .ok (.set (setNegation text).1 (member :: members), after)

theorem testSet_length {text after : Text} {test : ComponentTest α}
    (read : testSet text = .ok (test, after)) : after.length < text.length := by
  unfold testSet at read
  split at read
  · simp at read
  · simp at read
  · rename_i members
    have shorter := setMembers_length members
    have caret := setNegation_length text
    simp only [Except.ok.injEq, Prod.mk.injEq] at read
    simp only [← read.2]
    omega

/-- A test on one component that begins with the character `c` at an offset, and the text after
it. -/
def testFrom (offset : Nat) (c : Char) (rest : Text) : Except Fault (ComponentTest α × Text) :=
  if c = '<' then (component rest).map fun (member, after) => (.single member, after)
  else if c = '[' then testSet rest
  else if c = '*' ∨ c = '+' ∨ c = '?' ∨ c = '{' then .error (.nothingToRepeat c offset)
  else if c = '^' then .error .misplacedStart
  else if c = '$' then .error .misplacedEnd
  else .error (.unexpected c offset)

theorem testFrom_length {offset : Nat} {c : Char} {rest after : Text} {test : ComponentTest α}
    (read : testFrom offset c rest = .ok (test, after)) : after.length < rest.length := by
  unfold testFrom at read
  split at read
  · obtain ⟨⟨member, last⟩, inner, same⟩ := Text.ok_of_map read
    obtain ⟨-, rfl⟩ := Prod.mk.injEq .. ▸ same
    exact component_length inner
  · split at read
    · exact testSet_length read
    · split at read
      · simp at read
      · split at read
        · simp at read
        · split at read <;> simp at read

/-- The elements in the rest of a body. `nodes` holds the elements before it in the innermost open
group, last first, and `outer` those before the groups that are open. -/
def nodesFrom (body : Text) (outer : List (List (Node α))) (nodes : List (Node α)) (text : Text) :
    Except Fault (List (Node α)) :=
  match text with
  | [] => if outer.isEmpty then .ok nodes.reverse else .error .unclosedGroup
  | c :: rest =>
    if c = '(' then nodesFrom body (nodes :: outer) [] rest
    else if c = ')' then
      match outer with
      | [] => .error .unopenedGroup
      | around :: outer =>
        match _repeated : repetition rest with
        | .error fault => .error fault
        | .ok (bounds, after) =>
          nodesFrom body outer (.group nodes.reverse bounds :: around) after
    else
      match _test : testFrom (α := α) (body.utf8Size - Text.utf8Size (c :: rest)) c rest with
      | .error fault => .error fault
      | .ok (test, middle) =>
        match _repeated : repetition middle with
        | .error fault => .error fault
        | .ok (bounds, after) => nodesFrom body outer (.one test bounds :: nodes) after
termination_by text.length
decreasing_by
  · exact Nat.lt_succ_self _
  · exact Nat.lt_succ_of_le (repetition_length _repeated)
  · have one := testFrom_length _test
    have two := repetition_length _repeated
    simp only [List.length_cons]
    omega

/-- The elements that a body writes. -/
def nodesOf? (body : Text) : Except Fault (List (Node α)) :=
  nodesFrom body [] [] body

end readers

/-- The text without a leading sign of the beginning, and whether it had one. -/
def startAnchor (text : Text) : Bool × Text :=
  match text with
  | '^' :: rest => (true, rest)
  | _ => (false, text)

/-- The text without a trailing sign of the end, and whether it had one. -/
def endAnchor (text : Text) : Bool × Text :=
  match Text.dropLast? '$' text with
  | some body => (true, body)
  | none => (false, text)

/-- The pattern that a text writes. -/
def compile? [ComponentLanguage α] (text : Text) : Except PatternError (Pattern α) :=
  let (anchoredStart, rest) := startAnchor text
  let (anchoredEnd, body) := endAnchor rest
  match nodesOf? body with
  | .ok nodes => .ok ⟨text, anchoredStart, anchoredEnd, nodes⟩
  | .error fault => .error ⟨text, fault⟩

end TrustSchema.Pattern
