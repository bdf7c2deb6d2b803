import TrustSchema.Regex.Escape

/-!
Character classes between brackets. Under the flag `x`, white space and comments between the items
are passed over. A class may hold other classes, and operators between its items; the reader keeps
the classes that are open, innermost first.
-/

namespace TrustSchema.Regex

/-- A class that is being read: what its operands before the last operator stand for, the items of
its last operand, and how deep they nest. -/
structure OpenClass where
  negated : Bool
  left : Option (SetOperator × ClassExpr × Nat)
  items : ClassExpr
  itemCount : Nat
  itemHeight : Nat

namespace OpenClass

/-- A class without items. -/
def start (negated : Bool) : OpenClass := ⟨negated, none, .empty, 0, 0⟩

/-- One item more. -/
def add (c : OpenClass) (item : ClassExpr) (height : Nat) : OpenClass :=
  { c with
    items := .union c.items item
    itemCount := c.itemCount + 1
    itemHeight := Nat.max c.itemHeight height }

/-- How deep the items of the last operand nest; several items count as one level. -/
def operandHeight (c : OpenClass) : Nat :=
  if 2 ≤ c.itemCount then c.itemHeight + 1 else c.itemHeight

/-- Everything read so far as one operand. -/
def operand (c : OpenClass) : ClassExpr × Nat :=
  match c.left with
  | none => (c.items, c.operandHeight)
  | some (operator, left, height) =>
    (.operation operator left c.items, Nat.max height c.operandHeight + 1)

/-- The class after an operator. -/
def apply (c : OpenClass) (operator : SetOperator) : OpenClass :=
  let (left, height) := c.operand
  { start c.negated with left := some (operator, left, height) }

/-- The finished class. -/
def close (c : OpenClass) : ClassExpr × Nat :=
  let (inner, height) := c.operand
  (.bracket c.negated inner, height + 1)

end OpenClass

/-- Hyphens at the beginning of a class, which stand for themselves. -/
def leadingHyphens (ignoreSpace : Bool) (c : OpenClass) (text : Text) : OpenClass × Text :=
  match _skipped : skipBlanks ignoreSpace text with
  | '-' :: rest => leadingHyphens ignoreSpace (c.add (.range '-' '-') 0) rest
  | rest => (c, rest)
termination_by text.length
decreasing_by
  have := skipBlanks_length ignoreSpace text
  simp only [_skipped, List.length_cons] at this
  omega

theorem leadingHyphens_length (ignoreSpace : Bool) (c : OpenClass) (text : Text) :
    (leadingHyphens ignoreSpace c text).2.length ≤ text.length := by
  fun_induction leadingHyphens ignoreSpace c text with
  | case1 c text rest skipped ih =>
    have := skipBlanks_length ignoreSpace text
    simp only [skipped, List.length_cons] at this
    omega
  | case2 c text => exact skipBlanks_length ignoreSpace text

/-- A caret at the beginning of a class, which negates it. -/
def leadingCaret (text : Text) : Bool × Text :=
  match text with
  | '^' :: rest => (true, rest)
  | _ => (false, text)

theorem leadingCaret_length (text : Text) : (leadingCaret text).2.length ≤ text.length := by
  unfold leadingCaret
  split
  · exact Nat.le_succ _
  · exact Nat.le_refl _

/-- A closing bracket at the beginning of a class, which stands for itself where an item must
come. -/
def leadingBracket (c : OpenClass) (text : Text) : OpenClass × Text :=
  match text with
  | ']' :: rest => if c.itemCount = 0 then (c.add (.range ']' ']') 0, rest) else (c, text)
  | _ => (c, text)

theorem leadingBracket_length (c : OpenClass) (text : Text) :
    (leadingBracket c text).2.length ≤ text.length := by
  unfold leadingBracket
  split
  · split
    · exact Nat.le_succ _
    · exact Nat.le_refl _
  · exact Nat.le_refl _

/-- The beginning of a class, from after its bracket. -/
def classStart (ignoreSpace : Bool) (text : Text) : OpenClass × Text :=
  let (negated, rest) := leadingCaret (skipBlanks ignoreSpace text)
  let (c, rest) := leadingHyphens ignoreSpace (.start negated) rest
  leadingBracket c rest

theorem classStart_length (ignoreSpace : Bool) (text : Text) :
    (classStart ignoreSpace text).2.length ≤ text.length :=
  Nat.le_trans (leadingBracket_length _ _)
    (Nat.le_trans (leadingHyphens_length _ _ _)
      (Nat.le_trans (leadingCaret_length _) (skipBlanks_length _ _)))

/-- A named class of ASCII, from after its first bracket, and the text after its last. -/
def namedBracket? (text : Text) : Option (ClassExpr × Text) :=
  match text with
  | ':' :: rest =>
    let (negated, rest) := leadingCaret rest
    match Text.cutAt ':' rest with
    | some (name, ']' :: after) =>
      (namedClass? name).map fun members => (.named members negated, after)
    | _ => none
  | _ => none

theorem namedBracket?_length {text after : Text} {members : ClassExpr}
    (read : namedBracket? text = some (members, after)) : after.length < text.length := by
  unfold namedBracket? at read
  split at read
  · rename_i rest
    have caret := leadingCaret_length rest
    dsimp only at read
    split at read
    · rename_i cut
      have shorter := Text.cutAt_length cut
      simp only [Option.map_eq_some_iff, Prod.mk.injEq] at read
      obtain ⟨_, _, _, rfl⟩ := read
      simp only [List.length_cons] at shorter ⊢
      omega
    · simp at read
  · simp at read

/-- The text after the hyphen of a range, if it begins with one. A hyphen stands for itself before
the end of the class, and two hyphens are an operator. -/
def rangeEnd? (ignoreSpace : Bool) (text : Text) : Option Text :=
  match text with
  | '-' :: rest =>
    match skipBlanks ignoreSpace rest with
    | ']' :: _ | '-' :: _ => none
    | after => some after
  | _ => none

theorem rangeEnd?_length {ignoreSpace : Bool} {text after : Text}
    (read : rangeEnd? ignoreSpace text = some after) : after.length ≤ text.length := by
  unfold rangeEnd? at read
  split at read
  · rename_i rest
    have := skipBlanks_length ignoreSpace rest
    split at read
    · simp at read
    · simp at read
    · simp only [Option.some.injEq] at read
      subst read
      exact Nat.le_succ_of_le this
  · simp at read

/-- An operator between items, and the text after it. -/
def setOperator? : Text → Option (SetOperator × Text)
  | '&' :: '&' :: rest => some (.inter, rest)
  | '-' :: '-' :: rest => some (.diff, rest)
  | '~' :: '~' :: rest => some (.symmDiff, rest)
  | _ => none

theorem setOperator?_length {text after : Text} {operator : SetOperator}
    (read : setOperator? text = some (operator, after)) : after.length < text.length := by
  unfold setOperator? at read
  split at read
  all_goals simp only [Option.some.injEq, Prod.mk.injEq, reduceCtorEq] at read
  all_goals
    simp only [List.length_cons, ← read.2]
    omega

variable [PropertyTable]

/-- A single item of a class or an end of a range. -/
def classItem (ignoreSpace : Bool) (text : Text) : Except Fault (Escaped × Text) :=
  match text with
  | [] => .error .unclosedClass
  | '\\' :: rest => escape ignoreSpace rest
  | c :: rest => .ok (.literal c false, rest)

theorem classItem_length {ignoreSpace : Bool} {text after : Text} {e : Escaped}
    (read : classItem ignoreSpace text = .ok (e, after)) : after.length < text.length := by
  unfold classItem at read
  split at read
  · simp at read
  · exact Nat.lt_succ_of_lt (escape_length read)
  · simp only [Except.ok.injEq, Prod.mk.injEq] at read
    simp [← read.2]

/-- An item of a class that is no range. -/
def Escaped.asClass : Escaped → Except Fault ClassExpr
  | .literal c _ => .ok (.range c c)
  | .charClass members => .ok members
  | .condition _ => .error .assertionInClass

/-- The range between two items. -/
def Escaped.rangeTo (first last : Escaped) : Except Fault ClassExpr :=
  match first, last with
  | .literal lo _, .literal hi _ => if lo ≤ hi then .ok (.range lo hi) else .error .invertedRange
  | _, _ => .error .classAsRangeEnd

/-- A range or a single item of a class. -/
def classRange (ignoreSpace : Bool) (text : Text) : Except Fault (ClassExpr × Text) :=
  match classItem ignoreSpace text with
  | .error fault => .error fault
  | .ok (first, rest) =>
    match rangeEnd? ignoreSpace (skipBlanks ignoreSpace rest) with
    | none => first.asClass.map (·, rest)
    | some rest =>
      match classItem ignoreSpace rest with
      | .error fault => .error fault
      | .ok (last, rest) => (first.rangeTo last).map (·, rest)

theorem classRange_length {ignoreSpace : Bool} {text after : Text} {members : ClassExpr}
    (read : classRange ignoreSpace text = .ok (members, after)) : after.length < text.length := by
  unfold classRange at read
  split at read
  · simp at read
  · rename_i first rest item
    have one := classItem_length item
    split at read
    · obtain ⟨members, inner, same⟩ := Text.ok_of_map read
      obtain ⟨-, rfl⟩ := Prod.mk.injEq .. ▸ same
      exact one
    · rename_i middle hyphen
      have two := rangeEnd?_length hyphen
      have blanks := skipBlanks_length ignoreSpace rest
      split at read
      · simp at read
      · rename_i last later item
        have three := classItem_length item
        obtain ⟨members, inner, same⟩ := Text.ok_of_map read
        obtain ⟨-, rfl⟩ := Prod.mk.injEq .. ▸ same
        omega

/-- A class from inside its brackets, and the text after its last one. `outer` holds the classes
around the innermost open one. The result comes with the depth of its nesting. -/
def bracketBody (ignoreSpace : Bool) (outer : List OpenClass) (current : OpenClass) (text : Text) :
    Except Fault ((ClassExpr × Nat) × Text) :=
  match _skipped : skipBlanks ignoreSpace text with
  | [] => .error .unclosedClass
  | c :: rest =>
    if c = ']' then
      match outer with
      | [] => .ok (current.close, rest)
      | around :: outer =>
        bracketBody ignoreSpace outer (around.add current.close.1 current.close.2) rest
    else if c = '[' then
      match _named : namedBracket? rest with
      | some (members, after) => bracketBody ignoreSpace outer (current.add members 0) after
      | none =>
        bracketBody ignoreSpace (current :: outer) (classStart ignoreSpace rest).1
          (classStart ignoreSpace rest).2
    else
      match _operator : setOperator? (c :: rest) with
      | some (operator, after) => bracketBody ignoreSpace outer (current.apply operator) after
      | none =>
        match _item : classRange ignoreSpace (c :: rest) with
        | .error fault => .error fault
        | .ok (members, after) => bracketBody ignoreSpace outer (current.add members 0) after
termination_by text.length
decreasing_by
  all_goals
    have blanks := skipBlanks_length ignoreSpace text
    simp only [_skipped, List.length_cons] at blanks
  · omega
  · have := namedBracket?_length _named
    omega
  · have := classStart_length ignoreSpace rest
    omega
  · have := setOperator?_length _operator
    simp only [List.length_cons] at this
    omega
  · have := classRange_length _item
    simp only [List.length_cons] at this
    omega

/-- A class, from after its first bracket, and the text after its last. -/
def bracket (ignoreSpace : Bool) (text : Text) : Except Fault ((ClassExpr × Nat) × Text) :=
  let (c, rest) := classStart ignoreSpace text
  bracketBody ignoreSpace [] c rest

theorem bracketBody_length {ignoreSpace : Bool} {outer : List OpenClass} {current : OpenClass}
    {text after : Text} {result : ClassExpr × Nat}
    (read : bracketBody ignoreSpace outer current text = .ok (result, after)) :
    after.length < text.length := by
  fun_induction bracketBody ignoreSpace outer current text with
  | case1 | case7 => simp at read
  | case2 current text rest skipped =>
    have blanks := skipBlanks_length ignoreSpace text
    simp only [skipped, List.length_cons, Except.ok.injEq, Prod.mk.injEq] at blanks read
    simp only [← read.2]
    omega
  | case3 current text rest around outer skipped ih =>
    have blanks := skipBlanks_length ignoreSpace text
    have inner := ih read
    simp only [skipped, List.length_cons] at blanks
    omega
  | case4 outer current text rest members middle named skipped _ ih =>
    have blanks := skipBlanks_length ignoreSpace text
    have one := namedBracket?_length named
    have inner := ih read
    simp only [skipped, List.length_cons] at blanks
    omega
  | case5 outer current text rest named skipped _ ih =>
    have blanks := skipBlanks_length ignoreSpace text
    have one := classStart_length ignoreSpace rest
    have inner := ih read
    simp only [skipped, List.length_cons] at blanks
    omega
  | case6 outer current text c rest skipped _ _ operator middle found ih =>
    have blanks := skipBlanks_length ignoreSpace text
    have one := setOperator?_length found
    have inner := ih read
    simp only [skipped, List.length_cons] at blanks one
    omega
  | case8 outer current text c rest skipped _ _ none members middle item ih =>
    have blanks := skipBlanks_length ignoreSpace text
    have one := classRange_length item
    have inner := ih read
    simp only [skipped, List.length_cons] at blanks one
    omega

theorem bracket_length {ignoreSpace : Bool} {text after : Text} {result : ClassExpr × Nat}
    (read : bracket ignoreSpace text = .ok (result, after)) : after.length < text.length :=
  Nat.lt_of_lt_of_le (bracketBody_length read) (classStart_length ignoreSpace text)

end TrustSchema.Regex
