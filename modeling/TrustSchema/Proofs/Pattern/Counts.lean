import TrustSchema.Proofs.Pattern.Grammar

/-!
Bounds of a repetition are read exactly as the grammar has them. Numbers come first, then what
stands between braces, then the repetition that is read from the front of a text: what follows
decides only whether a repetition is there at all.
-/

namespace TrustSchema

namespace Text

theorem decimalDigit?_eq_some_iff (c : Char) (d : Nat) :
    decimalDigit? c = some d ↔ c.isDigit = true ∧ d = c.toNat - '0'.toNat := by
  have range : ('0' ≤ c ∧ c ≤ '9') ↔ c.isDigit = true := by
    simp [Char.isDigit, Char.le_def, UInt32.le_iff_toNat_le]
  rw [decimalDigit?]
  constructor
  · intro read
    split at read
    next inside => exact ⟨range.mp inside, (Option.some.inj read).symm⟩
    next => cases read
  · rintro ⟨digit, rfl⟩
    exact if_pos (range.mpr digit)

theorem mapM_decimalDigit?_eq_some_iff (digits : Text) (values : List Nat) :
    digits.mapM decimalDigit? = some values ↔
      (∀ c ∈ digits, c.isDigit = true) ∧ values = digits.map fun c => c.toNat - '0'.toNat := by
  induction digits generalizing values with
  | nil =>
    simp only [List.mapM_nil, Option.pure_def, Option.some.injEq, List.map_nil]
    constructor
    · rintro rfl
      exact ⟨nofun, rfl⟩
    · rintro ⟨-, rfl⟩
      rfl
  | cons c digits ih =>
    simp only [List.mapM_cons, Option.bind_eq_bind, Option.bind_eq_some_iff,
      decimalDigit?_eq_some_iff, ih, Option.pure_def, Option.some.injEq, List.mem_cons,
      forall_eq_or_imp, List.map_cons]
    constructor
    · rintro ⟨_, ⟨first, rfl⟩, _, ⟨others, rfl⟩, rfl⟩
      exact ⟨⟨first, others⟩, rfl⟩
    · rintro ⟨⟨first, others⟩, rfl⟩
      exact ⟨_, ⟨first, rfl⟩, _, ⟨others, rfl⟩, rfl⟩

theorem ofDigits_map (digits : Text) :
    ofDigits 10 (digits.map fun c => c.toNat - '0'.toNat) = Nat.ofDigitChars 10 digits 0 := by
  simp only [ofDigits, Nat.ofDigitChars, List.foldl_map, Nat.mul_comm]

theorem decimal?_eq_some_iff (digits : Text) (n : Nat) :
    decimal? digits = some n ↔
      digits ≠ [] ∧ (∀ c ∈ digits, c.isDigit = true) ∧ n = Nat.ofDigitChars 10 digits 0 := by
  rw [decimal?, number?]
  split
  next nothing => simp [List.isEmpty_iff.mp nothing]
  next some =>
    rw [Option.map_eq_some_iff]
    simp only [mapM_decimalDigit?_eq_some_iff]
    constructor
    · rintro ⟨values, ⟨all, rfl⟩, rfl⟩
      exact ⟨fun nothing => some (List.isEmpty_iff.mpr nothing), all, ofDigits_map digits⟩
    · rintro ⟨-, all, rfl⟩
      exact ⟨_, ⟨all, rfl⟩, ofDigits_map digits⟩

end Text

namespace Pattern

open Text Grammar

theorem not_isBlank_of_isDigit {c : Char} (digit : c.isDigit = true) : isBlank c = false := by
  have apart : ∀ b ∈ blankRanges, 0x39 < b.1 ∨ b.2 < 0x30 := by decide
  simp only [Char.isDigit, Bool.and_eq_true, decide_eq_true_eq, UInt32.le_iff_toNat_le] at digit
  simp only [isBlank, List.any_eq_false, Bool.and_eq_true, decide_eq_true_eq]
  rintro b member ⟨least, most⟩
  have := apart b member
  change 48 ≤ c.toNat ∧ c.toNat ≤ 57 at digit
  omega

/-- The characters of a number and the white space around it: digits, plus signs and blanks. -/
theorem Grammar.Count.mem {text : Text} {n : Nat} (count : Count text n) {c : Char}
    (member : c ∈ text) : isBlank c = true ∨ c = '+' ∨ c.isDigit = true := by
  obtain ⟨plus, before, after, -, all, -⟩ := count
  simp only [List.mem_append] at member
  rcases member with (early | sign | digit) | late
  · exact .inl (before c early)
  · cases plus with
    | true => exact .inr (.inl (List.mem_singleton.mp sign))
    | false => cases sign
  · exact .inr (.inr (all c digit))
  · exact .inl (after c late)

theorem dropPlus_append (plus : Bool) {digits : Text} (all : ∀ c ∈ digits, c.isDigit = true) :
    dropPlus ((if plus then ['+'] else []) ++ digits) = digits := by
  cases plus with
  | true => rfl
  | false =>
    -- Without a sign the first character is a digit, if there is one.
    cases digits with
    | nil => rfl
    | cons c rest =>
      have digit := all c List.mem_cons_self
      change dropPlus (c :: rest) = c :: rest
      unfold dropPlus
      split
      next same =>
        cases same
        cases digit
      next => rfl

theorem exists_dropPlus (text : Text) :
    ∃ plus, text = (if plus = true then ['+'] else []) ++ dropPlus text := by
  unfold dropPlus
  split
  next digits => exact ⟨true, rfl⟩
  next => exact ⟨false, rfl⟩

theorem countOf?_none_iff (written text : Text) :
    countOf? written text = .ok none ↔ Blank text := by
  rw [← trim_eq_nil_iff, countOf?]
  split
  next nothing => simp [List.isEmpty_iff.mp nothing]
  next some =>
    have other : trim text ≠ [] := fun nothing => some (List.isEmpty_iff.mpr nothing)
    split
    · split <;> simp [other]
    · simp [other]

theorem countOf?_some_iff (written text : Text) (n : Nat) :
    countOf? written text = .ok (some n) ↔ Count text n := by
  constructor
  · intro read
    rw [countOf?] at read
    split at read
    next => cases read
    split at read
    next value decimal =>
      split at read
      next bounded =>
        cases read
        obtain ⟨some, all, rfl⟩ := (decimal?_eq_some_iff _ _).mp decimal
        -- What trimming and the sign take off is put around the digits again.
        obtain ⟨before, after, left, right, whole⟩ := exists_trim text
        obtain ⟨plus, core⟩ := exists_dropPlus (trim text)
        have count := Count.intro plus left right some all bounded
        rwa [← core, ← whole] at count
      next => cases read
    next => cases read
  · rintro ⟨plus, left, right, some, all, bounded⟩
    rename_i before digits after
    -- Neither the sign nor a digit is blank, so that trimming stops at them.
    have solid : ∀ c ∈ (if plus = true then ['+'] else []) ++ digits, isBlank c = false := by
      intro c member
      rcases List.mem_append.mp member with sign | digit
      · cases plus with
        | true =>
          rw [List.mem_singleton.mp sign]
          decide
        | false => cases sign
      · exact not_isBlank_of_isDigit (all c digit)
    have written : (if plus = true then ['+'] else []) ++ digits ≠ [] :=
      List.append_ne_nil_of_right_ne_nil _ some
    have decimal := (decimal?_eq_some_iff digits _).mpr ⟨some, all, rfl⟩
    rw [countOf?]
    simp only [trim_surrounded left right solid, dropPlus_append plus all, decimal,
      List.isEmpty_eq_false_iff.mpr written]
    exact if_pos bounded

/-! ### Between braces -/

/-- A character that is no digit, no plus sign and not blank does not stand in a number. -/
theorem Grammar.Count.not_mem {text : Text} {n : Nat} (count : Count text n) {c : Char}
    (other : isBlank c = false ∧ c ≠ '+' ∧ c.isDigit = false) : c ∉ text := by
  intro member
  rcases count.mem member with blank | plus | digit
  · rw [other.1] at blank
    cases blank
  · exact other.2.1 plus
  · rw [other.2.2] at digit
    cases digit

theorem not_mem_of_blank {text : Text} (blank : Blank text) {c : Char} (other : isBlank c = false) :
    c ∉ text := by
  intro member
  rw [blank c member] at other
  cases other

theorem limits_of_boundsBetween {written left right : Text} {least greatest : Option Nat}
    {bounds : Bounds} (first : countOf? written left = .ok least)
    (second : countOf? written right = .ok greatest)
    (read : boundsBetween written least greatest = .ok bounds) :
    Limits (left ++ ',' :: right) bounds := by
  cases least with
  | none =>
    have blank := (countOf?_none_iff written left).mp first
    cases greatest with
    | none => cases read
    | some m =>
      cases read
      exact .atMost blank ((countOf?_some_iff written right m).mp second)
  | some n =>
    have count := (countOf?_some_iff written left n).mp first
    cases greatest with
    | none =>
      cases read
      exact .atLeast count ((countOf?_none_iff written right).mp second)
    | some m =>
      rw [boundsBetween, Bounds.between?] at read
      split at read
      next found ordered =>
        split at ordered
        next le =>
          cases ordered
          cases read
          exact .between le count ((countOf?_some_iff written right m).mp second)
        next => cases ordered
      next => cases read

theorem boundsOf?_comma {left right : Text} (absent : ',' ∉ left) :
    boundsOf? (left ++ ',' :: right) =
      (do
        let least ← countOf? (left ++ ',' :: right) left
        let greatest ← countOf? (left ++ ',' :: right) right
        boundsBetween (left ++ ',' :: right) least greatest) := by
  rw [boundsOf?, cutAt_append absent]

theorem boundsOf?_iff (text : Text) (bounds : Bounds) :
    boundsOf? text = .ok bounds ↔ Limits text bounds := by
  constructor
  · intro read
    rw [boundsOf?] at read
    split at read
    next left right cut =>
      obtain ⟨rfl, -⟩ := cutAt_eq_some cut
      obtain ⟨least, first, read⟩ := ok_of_bind read
      obtain ⟨greatest, second, read⟩ := ok_of_bind read
      exact limits_of_boundsBetween first second read
    next =>
      obtain ⟨found, only, read⟩ := ok_of_bind read
      cases found with
      | none => cases read
      | some n =>
        cases read
        exact .exactly ((countOf?_some_iff text text n).mp only)
  · intro limits
    -- No number holds a comma, so that the text is cut at the one between the numbers.
    have comma : isBlank ',' = false ∧ ',' ≠ '+' ∧ ','.isDigit = false := by decide
    cases limits with
    | exactly count =>
      rw [boundsOf?, cutAt_of_not_mem (count.not_mem comma)]
      simp only [(countOf?_some_iff _ _ _).mpr count, bind, Except.bind]
      rfl
    | atLeast count blank =>
      rw [boundsOf?_comma (count.not_mem comma), (countOf?_some_iff _ _ _).mpr count,
        (countOf?_none_iff _ _).mpr blank]
      rfl
    | atMost blank count =>
      rw [boundsOf?_comma (not_mem_of_blank blank comma.1), (countOf?_none_iff _ _).mpr blank,
        (countOf?_some_iff _ _ _).mpr count]
      rfl
    | between ordered first second =>
      rw [boundsOf?_comma (first.not_mem comma), (countOf?_some_iff _ _ _).mpr first,
        (countOf?_some_iff _ _ _).mpr second]
      simp [bind, Except.bind, boundsBetween, Bounds.between?, ordered]

theorem Grammar.Limits.not_mem {text : Text} {bounds : Bounds} (limits : Limits text bounds) :
    '}' ∉ text := by
  have brace : isBlank '}' = false ∧ '}' ≠ '+' ∧ '}'.isDigit = false := by decide
  cases limits with
  | exactly count => exact count.not_mem brace
  | atLeast count blank => simp [count.not_mem brace, not_mem_of_blank blank brace.1]
  | atMost blank count => simp [count.not_mem brace, not_mem_of_blank blank brace.1]
  | between _ first second => simp [first.not_mem brace, second.not_mem brace]

/-! ### After an element -/

/-- No sign of repetition stands at the beginning. -/
def Unsigned (text : Text) : Prop :=
  ∀ c ∈ text.head?, c ≠ '*' ∧ c ≠ '+' ∧ c ≠ '?' ∧ c ≠ '{'

/-- The characters that a repetition begins with. -/
def repetitionSigns : List Char := ['*', '+', '?', '{']

theorem unsigned_cons_iff (c : Char) (rest : Text) :
    Unsigned (c :: rest) ↔ c ∉ repetitionSigns := by
  simp [Unsigned, repetitionSigns]

theorem exists_of_repetition {text after : Text} {bounds : Bounds}
    (read : repetition text = .ok (bounds, after)) :
    ∃ front, text = front ++ after ∧ Grammar.Repetition front bounds ∧
      (front = [] → Unsigned after) := by
  unfold repetition at read
  split at read
  next rest =>
    cases read
    exact ⟨['*'], rfl, .star, nofun⟩
  next rest =>
    cases read
    exact ⟨['+'], rfl, .plus, nofun⟩
  next rest =>
    cases read
    exact ⟨['?'], rfl, .question, nofun⟩
  next rest =>
    split at read
    next written later cut =>
      obtain ⟨_, limits, same⟩ := ok_of_map read
      cases same
      obtain ⟨whole, -⟩ := cutAt_eq_some cut
      refine ⟨'{' :: (written ++ ['}']), ?_, .braces ((boundsOf?_iff _ _).mp limits), nofun⟩
      simp [whole]
    next => cases read
  next star plus question brace =>
    cases read
    refine ⟨[], rfl, .once, fun _ c same => ?_⟩
    obtain ⟨rest, rfl⟩ := List.head?_eq_some_iff.mp same
    refine ⟨?_, ?_, ?_, ?_⟩ <;> rintro rfl
    · exact star rest rfl
    · exact plus rest rfl
    · exact question rest rfl
    · exact brace rest rfl

/-- A sign that is written ends the repetition, whatever follows it. -/
theorem repetition_append {front after : Text} {bounds : Bounds}
    (written : Grammar.Repetition front bounds) (settled : front = [] → Unsigned after) :
    repetition (front ++ after) = .ok (bounds, after) := by
  cases written with
  | star => rfl
  | plus => rfl
  | question => rfl
  | once =>
    -- What follows is the only thing that could be taken for a repetition.
    have plain := settled rfl
    rw [List.nil_append]
    unfold repetition
    split <;> simp [Unsigned, Bounds.exactly] at plain ⊢
  | braces limits =>
    rename_i text
    have shape : '{' :: (text ++ ['}']) ++ after = '{' :: (text ++ '}' :: after) := by simp
    rw [shape, repetition, cutAt_append limits.not_mem]
    simp only [(boundsOf?_iff _ _).mpr limits, Except.map]

end Pattern

end TrustSchema
