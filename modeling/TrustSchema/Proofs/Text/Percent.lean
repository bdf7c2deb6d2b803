import TrustSchema.Text.Blank
import TrustSchema.Text.Percent

/-!
Percent escapes lose nothing, and what is written for arbitrary octets is made of a few characters
of ASCII that mean nothing else to any reader. A text is read exactly if two hexadecimal digits come
after every `%` in it.
-/

namespace TrustSchema.Text

/-- A hexadecimal digit, in either case, and its value. -/
def HexDigit (c : Char) (value : Nat) : Prop :=
  value < 16 ∧ (c = capitalHexDigit value ∨ c = smallHexDigit value)

theorem hexDigit?_capitalHexDigit {value : Nat} (small : value < 16) :
    hexDigit? (capitalHexDigit value) = some value := by
  have all : ∀ v : Fin 16, hexDigit? (capitalHexDigit v) = some v.val := by decide
  exact all ⟨value, small⟩

theorem hexDigit?_eq_some_iff (c : Char) (value : Nat) :
    hexDigit? c = some value ↔ HexDigit c value := by
  constructor
  · intro digit
    refine ⟨hexDigit?_lt digit, ?_⟩
    -- The three ranges of digits, by the numbers of their characters.
    simp only [hexDigit?, Char.le_def, UInt32.le_iff_toNat_le] at digit
    change (if 48 ≤ c.toNat ∧ c.toNat ≤ 57 then some (c.toNat - 48)
      else if 97 ≤ c.toNat ∧ c.toNat ≤ 102 then some (c.toNat - 97 + 10)
      else if 65 ≤ c.toNat ∧ c.toNat ≤ 70 then some (c.toNat - 65 + 10) else none) = _ at digit
    have same {number : Nat} (known : number = c.toNat) : c = Char.ofNat number := by
      rw [known, Char.ofNat_toNat]
    split at digit
    next decimal =>
      cases digit
      left
      rw [capitalHexDigit, if_pos (by omega)]
      apply same
      change 48 + (c.toNat - 48) = c.toNat
      omega
    · split at digit
      next letter =>
        cases digit
        right
        rw [smallHexDigit, if_neg (by omega)]
        apply same
        change 97 + (c.toNat - 97 + 10) - 10 = c.toNat
        omega
      · split at digit
        next letter =>
          cases digit
          left
          rw [capitalHexDigit, if_neg (by omega)]
          apply same
          change 65 + (c.toNat - 65 + 10) - 10 = c.toNat
          omega
        next => cases digit
  · rintro ⟨small, rfl | rfl⟩
    · exact hexDigit?_capitalHexDigit small
    · exact hexDigit?_smallHexDigit small

theorem HexDigit.ne_percent {c : Char} {value : Nat} (digit : HexDigit c value) : c ≠ '%' := by
  rintro rfl
  rw [← hexDigit?_eq_some_iff] at digit
  revert digit
  simp [hexDigit?]

namespace Percent

/-- The numbers of the characters of escaped texts: letters, digits and five signs. -/
def printedRanges : List (Nat × Nat) :=
  [(0x25, 0x25), (0x2B, 0x2B), (0x2D, 0x2E), (0x30, 0x39), (0x41, 0x5A), (0x5F, 0x5F), (0x61, 0x7A)]

/-- Whether a character may stand in an escaped text. -/
def isPrinted (c : Char) : Bool :=
  printedRanges.any fun (first, last) => decide (first ≤ c.toNat) && decide (c.toNat ≤ last)

private theorem plain_cases (b : UInt8) (written : plain b = true) :
    isPrinted (Char.ofNat b.toNat) = true ∧ Char.ofNat b.toNat ≠ '%' ∧
      String.utf8EncodeChar (Char.ofNat b.toNat) = [b] := by
  -- Octets below 128 are their own characters and their own UTF-8 forms.
  have all : ∀ n : Fin 256, plain (UInt8.ofNat n) = true →
      isPrinted (Char.ofNat n) = true ∧ Char.ofNat n ≠ '%' ∧
        String.utf8EncodeChar (Char.ofNat n) = [UInt8.ofNat n] := by
    decide +kernel
  have facts := all ⟨b.toNat, b.toNat_lt⟩
  simp only [UInt8.ofNat_toNat] at facts
  exact facts written

private theorem isPrinted_capitalHexDigit {value : Nat} (small : value < 16) :
    isPrinted (capitalHexDigit value) = true := by
  have all : ∀ v : Fin 16, isPrinted (capitalHexDigit v) = true := by decide
  exact all ⟨value, small⟩

theorem isPrinted_of_mem_encode {bytes : Bytes} {c : Char} (member : c ∈ encode bytes) :
    isPrinted c = true := by
  obtain ⟨b, -, written⟩ := List.mem_flatMap.mp member
  have octet := b.toNat_lt
  rw [encodeByte] at written
  split at written
  next plainByte =>
    rw [List.mem_singleton.mp written]
    exact (plain_cases b plainByte).1
  next =>
    simp only [List.mem_cons, List.not_mem_nil, or_false] at written
    rcases written with rfl | rfl | rfl
    · decide
    · exact isPrinted_capitalHexDigit (by omega)
    · exact isPrinted_capitalHexDigit (by omega)

theorem not_isBlank_of_isPrinted {c : Char} (printed : isPrinted c = true) : isBlank c = false := by
  have apart : ∀ a ∈ printedRanges, ∀ b ∈ blankRanges, a.2 < b.1 ∨ b.2 < a.1 := by decide
  simp only [isPrinted, List.any_eq_true, Bool.and_eq_true, decide_eq_true_eq] at printed
  obtain ⟨a, member, least, most⟩ := printed
  simp only [isBlank, List.any_eq_false, Bool.and_eq_true, decide_eq_true_eq]
  rintro b member' ⟨least', most'⟩
  have := apart a member b member'
  omega

theorem ne_of_isPrinted {c reserved : Char} (printed : isPrinted c = true)
    (special : isPrinted reserved = false) : c ≠ reserved := by
  rintro rfl
  rw [printed] at special
  cases special

theorem decode?_encodeByte (b : UInt8) (rest : Text) :
    decode? (encodeByte b ++ rest) = (decode? rest).map (b :: ·) := by
  rw [encodeByte]
  split
  next plainByte =>
    obtain ⟨-, ordinary, utf8⟩ := plain_cases b plainByte
    rw [List.singleton_append, decode?, if_neg ordinary, utf8]
    · rfl
    · intro high low later percent
      exact absurd percent ordinary
  next =>
    have octet := b.toNat_lt
    have whole : UInt8.ofNat (16 * (b.toNat / 16) + b.toNat % 16) = b := by
      rw [Nat.div_add_mod, UInt8.ofNat_toNat]
    rw [List.cons_append, List.cons_append, List.cons_append, List.nil_append, decode?,
      hexDigit?_capitalHexDigit (by omega), hexDigit?_capitalHexDigit (by omega)]
    cases decode? rest with
    | none => rfl
    | some bytes => exact congrArg (fun b => some (b :: bytes)) whole

theorem decode?_encode (bytes : Bytes) : decode? (encode bytes) = some bytes := by
  induction bytes with
  | nil => rfl
  | cons b bytes ih =>
    rw [encode, List.flatMap_cons, decode?_encodeByte]
    change (decode? (encode bytes)).map _ = _
    rw [ih]
    rfl

/-! ### Texts that are read -/

/-- The octets that a text stands for: those of the escapes in it, and the UTF-8 octets of all other
characters. -/
inductive Escaped : Text → Bytes → Prop
  | nil : Escaped [] []
  | plain {c : Char} {rest : Text} {octets : Bytes} :
      c ≠ '%' → Escaped rest octets → Escaped (c :: rest) (String.utf8EncodeChar c ++ octets)
  | escape {high low : Char} {h l : Nat} {rest : Text} {octets : Bytes} :
      HexDigit high h → HexDigit low l → Escaped rest octets →
      Escaped ('%' :: high :: low :: rest) (UInt8.ofNat (16 * h + l) :: octets)

/-- Two hexadecimal digits come after every `%`. -/
def Complete (text : Text) : Prop :=
  ∀ before after, text = before ++ '%' :: after →
    ∃ high low rest h l, after = high :: low :: rest ∧ HexDigit high h ∧ HexDigit low l

theorem decode?_eq_some_iff (text : Text) (octets : Bytes) :
    decode? text = some octets ↔ Escaped text octets := by
  constructor
  · intro read
    fun_induction decode? text generalizing octets with
    | case1 =>
      cases read
      exact .nil
    | case2 high low rest ih =>
      simp only [Option.bind_eq_bind, Option.bind_eq_some_iff] at read
      obtain ⟨h, highDigit, l, lowDigit, bytes, later, whole⟩ := read
      cases whole
      exact .escape ((hexDigit?_eq_some_iff _ _).mp highDigit)
        ((hexDigit?_eq_some_iff _ _).mp lowDigit) (ih bytes later)
    | case3 => cases read
    | case4 c rest _ plain ih =>
      obtain ⟨bytes, later, rfl⟩ := Option.map_eq_some_iff.mp read
      exact .plain plain (ih bytes later)
  · intro escaped
    induction escaped with
    | nil => rfl
    | plain ordinary _ ih =>
      rw [decode?, if_neg ordinary, ih]
      · rfl
      · rintro high low later rfl
        exact absurd rfl ordinary
    | escape highDigit lowDigit _ ih =>
      rw [decode?, (hexDigit?_eq_some_iff _ _).mpr highDigit,
        (hexDigit?_eq_some_iff _ _).mpr lowDigit, ih]
      rfl

/-- Every character stands for at least one octet. -/
theorem Escaped.eq_nil {text : Text} (escaped : Escaped text []) : text = [] := by
  generalize none : [] = octets at escaped
  cases escaped with
  | nil => rfl
  | @plain c =>
    have empty : String.utf8EncodeChar c = [] := (List.append_eq_nil_iff.mp none.symm).1
    have size := c.utf8Size_pos
    rw [← String.length_utf8EncodeChar, empty] at size
    exact absurd size (Nat.lt_irrefl _)
  | escape => cases none

theorem Complete.tail {c : Char} {rest : Text} (complete : Complete (c :: rest)) :
    Complete rest := by
  rintro before after rfl
  exact complete (c :: before) after rfl

/-- What follows the digits of an escape is searched for the next one, which the digits cannot
begin. -/
theorem exists_escaped_iff (text : Text) : (∃ octets, Escaped text octets) ↔ Complete text := by
  constructor
  · rintro ⟨octets, escaped⟩
    induction escaped with
    | nil =>
      intro before after whole
      cases before <;> cases whole
    | plain ordinary _ ih =>
      intro before after whole
      cases before with
      | nil => exact absurd (List.cons.inj whole).1 ordinary
      | cons _ before => exact ih before after (List.cons.inj whole).2
    | escape highDigit lowDigit _ ih =>
      intro before after whole
      match before, whole with
      | [], whole =>
        cases whole
        exact ⟨_, _, _, _, _, rfl, highDigit, lowDigit⟩
      | [_], whole => exact absurd (List.cons.inj (List.cons.inj whole).2).1 highDigit.ne_percent
      | [_, _], whole =>
        have second := (List.cons.inj (List.cons.inj (List.cons.inj whole).2).2).1
        exact absurd second lowDigit.ne_percent
      | _ :: _ :: _ :: before, whole =>
        exact ih before after (List.cons.inj (List.cons.inj (List.cons.inj whole).2).2).2
  · intro complete
    simp only [← decode?_eq_some_iff, ← Option.isSome_iff_exists]
    fun_induction decode? text with
    | case1 => rfl
    | case2 high low rest ih =>
      obtain ⟨_, _, _, h, l, same, highDigit, lowDigit⟩ := complete [] _ rfl
      cases same
      rw [← hexDigit?_eq_some_iff] at highDigit lowDigit
      obtain ⟨bytes, later⟩ := Option.isSome_iff_exists.mp (ih complete.tail.tail.tail)
      rw [highDigit, lowDigit, later]
      rfl
    | case3 rest short =>
      obtain ⟨high, low, later, _, _, rfl, -⟩ := complete [] rest rfl
      exact absurd rfl (short high low later rfl)
    | case4 c rest _ _ ih => rw [Option.isSome_map, ih complete.tail]

theorem decode?_eq_none_iff (text : Text) : decode? text = none ↔ ¬Complete text := by
  rw [Option.eq_none_iff_forall_ne_some, ← exists_escaped_iff, not_exists]
  simp only [ne_eq, decode?_eq_some_iff]

end Percent

end TrustSchema.Text
