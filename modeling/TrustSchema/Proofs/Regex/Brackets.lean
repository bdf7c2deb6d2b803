import TrustSchema.Proofs.Regex.Lookahead

/-!
A class between brackets is read alike whatever comes after its last bracket.
-/

namespace TrustSchema.Regex

/-! ### The beginning of a class -/

theorem takes_leadingCaret (text : Text) :
    Takes leadingCaret (fun t => ((leadingCaret text).1, t)) text (leadingCaret text).2 := by
  have present (t : Text) : leadingCaret ('^' :: t) = (true, t) := rfl
  refine takes_sign present (fun t absent => ?_) text
  unfold leadingCaret
  split
  next => exact absurd rfl absent
  next => rfl

theorem leadingHyphens_of_hyphen {ignoreSpace : Bool} {text rest : Text} (c : OpenClass)
    (skipped : skipBlanks ignoreSpace text = '-' :: rest) :
    leadingHyphens ignoreSpace c text =
      leadingHyphens ignoreSpace (c.add (.range '-' '-') 0) rest := by
  rw [leadingHyphens]
  split
  next found => cases skipped.symm.trans found; rfl
  next absent => exact (absent rest skipped).elim

theorem leadingHyphens_of_head?_ne {ignoreSpace : Bool} {text : Text} (c : OpenClass)
    (absent : (skipBlanks ignoreSpace text).head? ≠ some '-') :
    leadingHyphens ignoreSpace c text = (c, skipBlanks ignoreSpace text) := by
  rw [leadingHyphens]
  split
  next found =>
    rw [found] at absent
    exact absurd rfl absent
  next => rfl

theorem takes_leadingHyphens (ignoreSpace : Bool) (c : OpenClass) (text : Text) :
    Takes (leadingHyphens ignoreSpace c) (fun t => ((leadingHyphens ignoreSpace c text).1, t)) text
      (leadingHyphens ignoreSpace c text).2 := by
  fun_induction leadingHyphens ignoreSpace c text with
  | case1 c text rest skipped ih =>
    obtain ⟨blanks, rfl, same⟩ := exists_blanks skipped
    obtain ⟨taken, left, same'⟩ := ih
    refine ⟨blanks ++ '-' :: taken, ?_, fun other alike => ?_⟩
    · rw [List.append_assoc, List.cons_append, ← left]
    · rw [List.append_assoc, List.cons_append, leadingHyphens_of_hyphen c (same _)]
      exact same' other alike
  | case2 c text absent =>
    have head : (skipBlanks ignoreSpace text).head? ≠ some '-' := fun present =>
      (List.head?_eq_some_iff.mp present).elim absent
    obtain ⟨blanks, whole, same⟩ := takes_skipBlanks ignoreSpace text
    refine ⟨blanks, whole, fun other alike => ?_⟩
    have skipped := same other alike
    rw [leadingHyphens_of_head?_ne c (by rw [skipped]; exact alike.head?_ne head), skipped]
    rfl

theorem leadingBracket_of_head? {c : OpenClass} {text : Text}
    (later : text.head? = some ']' → c.itemCount ≠ 0) : leadingBracket c text = (c, text) := by
  unfold leadingBracket
  split
  next => exact if_neg (later rfl)
  next => rfl

theorem takes_leadingBracket (c : OpenClass) (text : Text) :
    Takes (leadingBracket c) (fun t => ((leadingBracket c text).1, t)) text
      (leadingBracket c text).2 := by
  by_cases first : text.head? = some ']' ∧ c.itemCount = 0
  · obtain ⟨begins, none⟩ := first
    obtain ⟨rest, rfl⟩ := List.head?_eq_some_iff.mp begins
    have taken (t : Text) : leadingBracket c (']' :: t) = (c.add (.range ']' ']') 0, t) :=
      if_pos none
    rw [taken]
    exact ⟨[']'], rfl, fun other _ => taken other⟩
  · rw [leadingBracket_of_head? fun begins none => first ⟨begins, none⟩]
    refine ⟨[], rfl, fun other alike => leadingBracket_of_head? fun begins none => ?_⟩
    exact alike.head?_ne (fun begins' => first ⟨begins', none⟩) begins

theorem takes_classStart (ignoreSpace : Bool) (text : Text) :
    Takes (classStart ignoreSpace) (fun t => ((classStart ignoreSpace text).1, t)) text
      (classStart ignoreSpace text).2 := by
  let afterCaret (t : Text) := leadingCaret (skipBlanks ignoreSpace t)
  let afterHyphens (t : Text) :=
    leadingHyphens ignoreSpace (.start (afterCaret t).1) (afterCaret t).2
  have caret : Takes afterCaret (fun t => ((afterCaret text).1, t)) text (afterCaret text).2 :=
    (takes_skipBlanks ignoreSpace text).trans (takes_leadingCaret _)
      fun t m o _ skipped found => by
        simp only [afterCaret, skipped]
        exact found
  have hyphens :
      Takes afterHyphens (fun t => ((afterHyphens text).1, t)) text (afterHyphens text).2 :=
    caret.trans (takes_leadingHyphens ignoreSpace (.start (afterCaret text).1) _)
      fun t m o _ before found => by
        simp only [afterHyphens, before]
        exact found
  exact hyphens.trans (takes_leadingBracket (afterHyphens text).1 _) fun t m o _ before found => by
    change leadingBracket (afterHyphens t).1 (afterHyphens t).2 = _
    rw [before]
    exact found

/-! ### Items -/

theorem not_mem_of_namedClass? {name : Text} {members : CharSet}
    (known : namedClass? name = some members) : ']' ∉ name := by
  have plain : ∀ entry ∈ namedClass?.table, ']' ∉ entry.1.toList := by decide
  obtain ⟨entry, found, -⟩ := Option.map_eq_some_iff.mp known
  have named := List.find?_some found
  rw [← of_decide_eq_true named]
  exact plain entry (List.mem_of_find?_eq_some found)

/-- A named class ends at its first closing bracket. -/
theorem namedBracket?_eq_some {text after : Text} {members : ClassExpr}
    (read : namedBracket? text = some (members, after)) :
    ∃ front, ']' ∉ front ∧ text = front ++ ']' :: after ∧
      ∀ other, namedBracket? (front ++ ']' :: other) = some (members, other) := by
  unfold namedBracket? at read
  split at read
  next rest =>
    dsimp only at read
    split at read
    next name after' cut =>
      obtain ⟨set, known, same⟩ := Option.map_eq_some_iff.mp read
      cases same
      obtain ⟨cutHere, absent⟩ := Text.cutAt_eq_some cut
      obtain ⟨caret, begun, found⟩ := takes_leadingCaret rest
      have plain : ']' ∉ caret := by
        unfold leadingCaret at begun
        split at begun
        next r =>
          have alone : caret = ['^'] :=
            List.append_cancel_right (begun.symm : caret ++ r = ['^'] ++ r)
          rw [alone]
          decide
        next =>
          have none : caret = [] :=
            List.append_cancel_right (begun.symm : caret ++ rest = [] ++ rest)
          rw [none]
          exact List.not_mem_nil
      refine ⟨':' :: (caret ++ (name ++ [':'])), ?_, ?_, fun other => ?_⟩
      · simp [plain, not_mem_of_namedClass? known]
      · rw [begun, cutHere]
        simp
      · have alike : Alike (name ++ ':' :: ']' :: other) (leadingCaret rest).2 := by
          have colon := Alike.of_ne_nil (List.append_ne_nil_of_right_ne_nil name
            (List.cons_ne_nil ':' [])) (']' :: other) (']' :: after)
          rwa [List.append_assoc, List.append_assoc, List.singleton_append, List.singleton_append,
            ← cutHere] at colon
        simp only [List.cons_append, List.append_assoc, List.nil_append, namedBracket?,
          found _ alike, Text.cutAt_append absent, known]
        rfl
    next => cases read
  next => cases read

/-- Where no named class begins, the text after a closing bracket does not change that. -/
theorem namedBracket?_eq_none {front after : Text} (none : namedBracket? (front ++ after) = none)
    (bracket : ']' ∈ front) (other : Text) : namedBracket? (front ++ other) = .none := by
  rw [Option.eq_none_iff_forall_ne_some]
  rintro ⟨members, left⟩ some
  obtain ⟨name, absent, whole, again⟩ := namedBracket?_eq_some some
  -- The name ends before the bracket does, so it would have been there already.
  obtain ⟨between, same, -⟩ | ⟨between, rfl, same⟩ := List.append_eq_append_iff.mp whole
  · rw [same] at absent
    exact absent (List.mem_append_left _ bracket)
  · cases between with
    | nil =>
      rw [List.append_nil] at bracket
      exact absent bracket
    | cons c between =>
      rw [List.cons_append, List.cons.injEq] at same
      rw [← same.1, List.append_assoc, List.cons_append, again] at none
      cases none

theorem takes_rangeEnd? {ignoreSpace : Bool} {text after : Text}
    (read : rangeEnd? ignoreSpace text = some after) :
    Takes (rangeEnd? ignoreSpace) some text after := by
  unfold rangeEnd? at read
  split at read
  next rest =>
    have blanks := takes_skipBlanks ignoreSpace rest
    split at read
    next => cases read
    next => cases read
    next bracket hyphen =>
      cases read
      -- What follows is looked at, but only for a bracket or a second hyphen.
      obtain ⟨taken, whole, same⟩ := blanks
      refine ⟨'-' :: taken, congrArg _ whole, fun other alike => ?_⟩
      have skipped := same other alike
      have noBracket : other.head? ≠ some ']' := alike.head?_ne fun present =>
        (List.head?_eq_some_iff.mp present).elim bracket
      have noHyphen : other.head? ≠ some '-' := alike.head?_ne fun present =>
        (List.head?_eq_some_iff.mp present).elim hyphen
      simp only [List.cons_append, rangeEnd?, skipped, id]
      split
      next => exact absurd rfl noBracket
      next => exact absurd rfl noHyphen
      next => rfl
  next => cases read

section

variable [PropertyTable]

theorem takesAlone_classItem {ignoreSpace : Bool} {text after : Text} {e : Escaped}
    (read : classItem ignoreSpace text = .ok (e, after)) (item : ∀ kind, e ≠ .condition kind) :
    TakesAlone (classItem ignoreSpace) (fun t => .ok (e, t)) text after := by
  unfold classItem at read
  split at read
  next => cases read
  next rest =>
    rcases takesAlone_escape read with taken | ⟨-, rfl, -⟩
    · exact taken.cons fun t o same => same
    · exact absurd rfl (item _)
  next c rest absent =>
    cases read
    refine ⟨[c], rfl, fun other => ?_⟩
    unfold classItem
    split
    next none => cases none
    next same => cases same; exact (absent rfl).elim
    next same => cases same; rfl

/-- A range or a single item is read alike where as much follows as may make a range of an item. -/
theorem exists_classRange {ignoreSpace : Bool} {text after : Text} {members : ClassExpr}
    (read : classRange ignoreSpace text = .ok (members, after)) :
    ∃ taken, taken ≠ [] ∧ text = taken ++ after ∧ ∀ other,
      (rangeEnd? ignoreSpace (skipBlanks ignoreSpace after) = none →
        rangeEnd? ignoreSpace (skipBlanks ignoreSpace other) = none) →
      classRange ignoreSpace (taken ++ other) = .ok (members, other) := by
  unfold classRange at read
  split at read
  next => cases read
  next first rest item =>
    split at read
    next alone =>
      -- Whether a range begins is what has to be the same before the other text.
      obtain ⟨single, same, ⟨⟩⟩ := Text.ok_of_map read
      have solid : ∀ kind, first ≠ .condition kind := by
        rintro kind rfl
        cases same
      obtain ⟨taken, rfl, again⟩ := takesAlone_classItem item solid
      refine ⟨taken, ?_, rfl, fun other lookahead => ?_⟩
      · rintro rfl
        cases again []
      · simp only [classRange, again, lookahead alone, same]
        rfl
    next middle hyphen =>
      split at read
      next => cases read
      next last later item' =>
        -- Both ends have been read, so nothing after them matters.
        obtain ⟨range, same, ⟨⟩⟩ := Text.ok_of_map read
        have solid : ∀ kind, first ≠ .condition kind := by
          rintro kind rfl
          cases same
        have solid' : ∀ kind, last ≠ .condition kind := by
          rintro kind rfl
          cases first with
          | _ => cases same
        obtain ⟨taken, rfl, again⟩ := takesAlone_classItem item solid
        have ending : Takes (fun t => rangeEnd? ignoreSpace (skipBlanks ignoreSpace t)) some rest
            middle :=
          (takes_skipBlanks ignoreSpace rest).trans (takes_rangeEnd? hyphen)
            fun t m o _ skipped found => by rw [skipped]; exact found
        obtain ⟨back, rfl, again'⟩ := takesAlone_classItem item' solid'
        obtain ⟨between, rfl, found⟩ := ending
        have some : back ≠ [] := by
          rintro rfl
          cases again' []
        refine ⟨taken ++ (between ++ back), ?_, by simp, fun other _ => ?_⟩
        · simp [some]
        · have hyphen' := found (back ++ other) (Alike.of_ne_nil some other after)
          simp only [List.append_assoc, classRange, again, hyphen', again', same]
          rfl

end

theorem setOperator?_cons_cons (c d : Char) (text other : Text) :
    setOperator? (c :: d :: text) = none → setOperator? (c :: d :: other) = none := by
  intro none
  unfold setOperator? at none ⊢
  split at none
  · cases none
  · cases none
  · cases none
  next inter diff symm =>
    split
    next same => cases same; exact (inter _ rfl).elim
    next same => cases same; exact (diff _ rfl).elim
    next same => cases same; exact (symm _ rfl).elim
    next => rfl

/-- What comes after two characters has no part in an operator. -/
theorem setOperator?_append {c : Char} {front after : Text} (some : front ≠ [])
    (none : setOperator? (c :: (front ++ after)) = none) (other : Text) :
    setOperator? (c :: (front ++ other)) = .none := by
  cases front with
  | nil => exact absurd rfl some
  | cons d front => exact setOperator?_cons_cons c d _ _ none

theorem takesAlone_setOperator? {text after : Text} {operator : SetOperator}
    (read : setOperator? text = some (operator, after)) :
    TakesAlone setOperator? (fun t => some (operator, t)) text after := by
  unfold setOperator? at read
  split at read
  · cases read; exact ⟨['&', '&'], rfl, fun other => rfl⟩
  · cases read; exact ⟨['-', '-'], rfl, fun other => rfl⟩
  · cases read; exact ⟨['~', '~'], rfl, fun other => rfl⟩
  · cases read

/-! ### Whole classes -/

section

variable [PropertyTable] {ignoreSpace : Bool} {outer : List OpenClass} {current : OpenClass}
  {text : Text}

theorem bracketBody_nil (skipped : skipBlanks ignoreSpace text = []) :
    bracketBody ignoreSpace outer current text = .error .unclosedClass := by
  rw [bracketBody]
  split
  next => rfl
  next found => cases skipped.symm.trans found

theorem bracketBody_cons {c : Char} {rest : Text}
    (skipped : skipBlanks ignoreSpace text = c :: rest) :
    bracketBody ignoreSpace outer current text =
      if c = ']' then
        match outer with
        | [] => .ok (current.close, rest)
        | around :: outer =>
          bracketBody ignoreSpace outer (around.add current.close.1 current.close.2) rest
      else if c = '[' then
        match namedBracket? rest with
        | some (members, after) => bracketBody ignoreSpace outer (current.add members 0) after
        | none =>
          bracketBody ignoreSpace (current :: outer) (classStart ignoreSpace rest).1
            (classStart ignoreSpace rest).2
      else
        match setOperator? (c :: rest) with
        | some (operator, after) => bracketBody ignoreSpace outer (current.apply operator) after
        | none =>
          match classRange ignoreSpace (c :: rest) with
          | .error fault => .error fault
          | .ok (members, after) =>
            bracketBody ignoreSpace outer (current.add members 0) after := by
  rw [bracketBody]
  split
  next none => cases skipped.symm.trans none
  next found =>
    cases skipped.symm.trans found
    by_cases closes : c = ']'
    · exact (if_pos closes).trans (if_pos closes).symm
    · rw [if_neg closes, if_neg closes]
      by_cases opens : c = '['
      · rw [if_pos opens, if_pos opens]
        split <;> simp only [*]
      · rw [if_neg opens, if_neg opens]
        split
        next operator => simp only [operator]
        next operator =>
          simp only [operator]
          split <;> simp only [*]

section steps

variable {c : Char} {rest after : Text}

theorem bracketBody_named {members : ClassExpr}
    (skipped : skipBlanks ignoreSpace text = '[' :: rest)
    (named : namedBracket? rest = some (members, after)) :
    bracketBody ignoreSpace outer current text =
      bracketBody ignoreSpace outer (current.add members 0) after := by
  rw [bracketBody_cons skipped, if_neg (by decide), if_pos rfl, named]

theorem bracketBody_open (skipped : skipBlanks ignoreSpace text = '[' :: rest)
    (none : namedBracket? rest = none) :
    bracketBody ignoreSpace outer current text =
      bracketBody ignoreSpace (current :: outer) (classStart ignoreSpace rest).1
        (classStart ignoreSpace rest).2 := by
  rw [bracketBody_cons skipped, if_neg (by decide), if_pos rfl, none]

theorem bracketBody_operator {operator : SetOperator}
    (skipped : skipBlanks ignoreSpace text = c :: rest) (closes : c ≠ ']') (opens : c ≠ '[')
    (found : setOperator? (c :: rest) = some (operator, after)) :
    bracketBody ignoreSpace outer current text =
      bracketBody ignoreSpace outer (current.apply operator) after := by
  rw [bracketBody_cons skipped, if_neg closes, if_neg opens, found]

theorem bracketBody_item {members : ClassExpr} (skipped : skipBlanks ignoreSpace text = c :: rest)
    (closes : c ≠ ']') (opens : c ≠ '[') (none : setOperator? (c :: rest) = none)
    (item : classRange ignoreSpace (c :: rest) = .ok (members, after)) :
    bracketBody ignoreSpace outer current text =
      bracketBody ignoreSpace outer (current.add members 0) after := by
  rw [bracketBody_cons skipped, if_neg closes, if_neg opens, none]
  simp only [item]

end steps

/-- Something comes after a hyphen of a class. -/
theorem skipBlanks_after_hyphen {rest : Text} {result : (ClassExpr × Nat) × Text}
    (skipped : skipBlanks ignoreSpace text = '-' :: rest)
    (read : bracketBody ignoreSpace outer current text = .ok result) :
    skipBlanks ignoreSpace rest ≠ [] := by
  intro none
  have single : setOperator? ('-' :: rest) = .none := by
    unfold setOperator?
    split
    next same => cases same
    next same =>
      cases same
      cases ignoreSpace with
      | true => cases none
      | false => cases none
    next same => cases same
    next => rfl
  have item : classRange ignoreSpace ('-' :: rest) = .ok (.range '-' '-', rest) := by
    have hyphen : classItem ignoreSpace ('-' :: rest) = .ok (.literal '-' false, rest) := rfl
    simp only [classRange, hyphen, none]
    rfl
  rw [bracketBody_item skipped (by decide) (by decide) single item, bracketBody_nil none] at read
  cases read

/-- A body of a class that is complete before the text ends settles what follows an item. -/
theorem rangeEnd?_append {result : ClassExpr × Nat} {taken : Text}
    (read : bracketBody ignoreSpace outer current taken = .ok (result, [])) (after other : Text)
    (none : rangeEnd? ignoreSpace (skipBlanks ignoreSpace (taken ++ after)) = none) :
    rangeEnd? ignoreSpace (skipBlanks ignoreSpace (taken ++ other)) = .none := by
  cases skipped : skipBlanks ignoreSpace taken with
  | nil =>
    rw [bracketBody_nil skipped] at read
    cases read
  | cons c rest =>
    obtain ⟨blanks, rfl, again⟩ := exists_blanks skipped
    rw [List.append_assoc, List.cons_append, again] at none ⊢
    by_cases hyphen : c = '-'
    · subst hyphen
      cases skipped' : skipBlanks ignoreSpace rest with
      | nil => exact absurd skipped' (skipBlanks_after_hyphen skipped read)
      | cons d more =>
        obtain ⟨blanks', rfl, again'⟩ := exists_blanks skipped'
        simp only [rangeEnd?, List.append_assoc, List.cons_append, again'] at none ⊢
        split at none
        next same => cases same; rfl
        next same => cases same; rfl
        next => cases none
    · unfold rangeEnd?
      split
      next same => cases same; exact absurd rfl hyphen
      next => rfl

theorem exists_bracketBody {after : Text} {result : ClassExpr × Nat}
    (read : bracketBody ignoreSpace outer current text = .ok (result, after)) :
    ∃ taken, ']' ∈ taken ∧ text = taken ++ after ∧
      ∀ other, bracketBody ignoreSpace outer current (taken ++ other) = .ok (result, other) := by
  -- In each case, what one step takes stands before what the rest of the reading takes.
  fun_induction bracketBody ignoreSpace outer current text with
  | case1 | case7 => cases read
  | case2 current text rest skipped =>
    cases read
    obtain ⟨blanks, rfl, again⟩ := exists_blanks skipped
    refine ⟨blanks ++ [']'], by simp, by simp, fun other => ?_⟩
    rw [List.append_assoc]
    exact bracketBody_cons (again other)
  | case3 current text rest around outer skipped ih =>
    obtain ⟨blanks, rfl, again⟩ := exists_blanks skipped
    obtain ⟨taken, bracket, rfl, inner⟩ := ih read
    refine ⟨blanks ++ ']' :: taken, by simp, by simp, fun other => ?_⟩
    rw [List.append_assoc]
    exact (bracketBody_cons (again _)).trans (inner other)
  | case4 outer current text rest members middle named skipped _ ih =>
    obtain ⟨blanks, rfl, again⟩ := exists_blanks skipped
    obtain ⟨front, -, rfl, named'⟩ := namedBracket?_eq_some named
    obtain ⟨taken, bracket, rfl, inner⟩ := ih read
    refine ⟨blanks ++ '[' :: (front ++ ']' :: taken), by simp, by simp, fun other => ?_⟩
    rw [List.append_assoc, List.cons_append, List.append_assoc, List.cons_append]
    exact (bracketBody_named (again _) (named' _)).trans (inner other)
  | case5 outer current text rest named skipped _ ih =>
    obtain ⟨blanks, rfl, again⟩ := exists_blanks skipped
    obtain ⟨taken, bracket, left, inner⟩ := ih read
    obtain ⟨front, begun, start⟩ := takes_classStart ignoreSpace rest
    rw [left] at begun start
    have some : taken ≠ [] := List.ne_nil_of_mem bracket
    refine ⟨blanks ++ '[' :: (front ++ taken), by simp [bracket], by simp [begun],
      fun other => ?_⟩
    -- No named class begins here, whatever comes after the class.
    rw [begun, ← List.append_assoc] at named
    have named' := namedBracket?_eq_none named (List.mem_append_right front bracket) other
    have started := start (taken ++ other) (Alike.of_ne_nil some other after)
    rw [List.append_assoc] at named'
    rw [List.append_assoc, List.cons_append, List.append_assoc,
      bracketBody_open (again _) named', started]
    exact inner other
  | case6 outer current text c rest skipped noBracket noOpen operator middle found ih =>
    obtain ⟨blanks, rfl, again⟩ := exists_blanks skipped
    obtain ⟨taken, bracket, rfl, inner⟩ := ih read
    obtain ⟨sign, whole, found'⟩ := takesAlone_setOperator? found
    cases sign with
    | nil => cases found' []
    | cons d sign =>
      rw [List.cons_append, List.cons.injEq] at whole
      obtain ⟨rfl, rfl⟩ := whole
      refine ⟨blanks ++ c :: (sign ++ taken), by simp [bracket], by simp, fun other => ?_⟩
      have operator' := found' (taken ++ other)
      rw [List.cons_append] at operator'
      rw [List.append_assoc, List.cons_append, List.append_assoc]
      exact (bracketBody_operator (again _) noBracket noOpen operator').trans (inner other)
  | case8 outer current text c rest skipped noBracket noOpen none members middle item ih =>
    obtain ⟨blanks, rfl, again⟩ := exists_blanks skipped
    obtain ⟨taken, bracket, rfl, inner⟩ := ih read
    obtain ⟨one, some, whole, item'⟩ := exists_classRange item
    cases one with
    | nil => exact absurd rfl some
    | cons d one =>
      rw [List.cons_append, List.cons.injEq] at whole
      obtain ⟨rfl, rfl⟩ := whole
      refine ⟨blanks ++ c :: (one ++ taken), by simp [bracket], by simp, fun other => ?_⟩
      -- What follows the item is settled before the class ends.
      have closed := inner []
      rw [List.append_nil] at closed
      have ranged := item' (taken ++ other) (rangeEnd?_append closed after other)
      have plain : setOperator? (c :: (one ++ (taken ++ other))) = .none := by
        rw [← List.append_assoc] at none ⊢
        apply setOperator?_append _ none
        exact List.append_ne_nil_of_right_ne_nil one (List.ne_nil_of_mem bracket)
      rw [List.cons_append] at ranged
      rw [List.append_assoc, List.cons_append, List.append_assoc]
      exact (bracketBody_item (again _) noBracket noOpen plain ranged).trans (inner other)

/-- A class is read alike whatever follows it. -/
theorem takesAlone_bracket {after : Text} {result : ClassExpr × Nat}
    (read : bracket ignoreSpace text = .ok (result, after)) :
    TakesAlone (bracket ignoreSpace) (fun t => .ok (result, t)) text after := by
  obtain ⟨front, begun, start⟩ := takes_classStart ignoreSpace text
  have body : bracketBody ignoreSpace [] (classStart ignoreSpace text).1
      (classStart ignoreSpace text).2 = .ok (result, after) := read
  obtain ⟨taken, closing, left, inner⟩ := exists_bracketBody body
  rw [left] at begun start
  refine ⟨front ++ taken, by rw [begun, List.append_assoc], fun other => ?_⟩
  have started := start (taken ++ other) (Alike.of_ne_nil (List.ne_nil_of_mem closing) other after)
  rw [List.append_assoc]
  simp only [bracket, started]
  exact inner other

end

end TrustSchema.Regex
