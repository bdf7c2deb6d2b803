import Mathlib.Data.List.Basic
import TrustSchema.Codec.Base64

/-!
Base64 text is read back as the octets that it writes. Three octets are a group of four symbols, and
what is left over is a last group that padding fills up.
-/

namespace TrustSchema.Codec.Base64

open Text

/-- The octet of the symbol of a value. -/
def octet (value : Nat) : UInt8 :=
  UInt8.ofNat (symbol value).toNat

private theorem symbol_cases {value : Nat} (small : value < 64) :
    String.utf8EncodeChar (symbol value) = [octet value] ∧ value? (octet value) = some value ∧
      octet value ≠ padding := by
  -- The alphabet is gone through symbol by symbol.
  have all : ∀ v : Fin 64, String.utf8EncodeChar (symbol v) = [octet v] ∧
      value? (octet v) = some v.val ∧ octet v ≠ padding := by
    decide +kernel
  exact all ⟨value, small⟩

theorem toUtf8_symbol {value : Nat} (small : value < 64) (rest : Text) :
    toUtf8 (symbol value :: rest) = octet value :: toUtf8 rest := by
  rw [toUtf8, List.flatMap_cons, (symbol_cases small).1]
  rfl

theorem length_encode (bytes : Bytes) : (encode bytes).length = 4 * ((bytes.length + 2) / 3) := by
  fun_induction encode bytes with
  | case1 => rfl
  | case2 => simp
  | case3 => simp
  | case4 a b c rest ih =>
    simp only [List.length_cons, ih]
    omega

/-- The texts that writing gives are of symbols, with padding at the end. -/
theorem exists_of_mem_encode {bytes : Bytes} {c : Char} (member : c ∈ encode bytes) :
    (∃ value < 64, c = symbol value) ∨ c = '=' := by
  fun_induction encode bytes with
  | case1 => cases member
  | case2 a =>
    have size := a.toNat_lt
    simp only [List.mem_cons, List.not_mem_nil, or_false] at member
    rcases member with rfl | rfl | rfl | rfl
    · exact .inl ⟨_, by omega, rfl⟩
    · exact .inl ⟨_, by omega, rfl⟩
    · exact .inr rfl
    · exact .inr rfl
  | case3 a b =>
    have sizes := And.intro a.toNat_lt b.toNat_lt
    simp only [List.mem_cons, List.not_mem_nil, or_false] at member
    rcases member with rfl | rfl | rfl | rfl
    · exact .inl ⟨_, by omega, rfl⟩
    · exact .inl ⟨_, by omega, rfl⟩
    · exact .inl ⟨_, by omega, rfl⟩
    · exact .inr rfl
  | case4 a b c rest ih =>
    have sizes := And.intro a.toNat_lt (And.intro b.toNat_lt c.toNat_lt)
    simp only [List.mem_cons] at member
    rcases member with rfl | rfl | rfl | rfl | later
    · exact .inl ⟨_, by omega, rfl⟩
    · exact .inl ⟨_, by omega, rfl⟩
    · exact .inl ⟨_, by omega, rfl⟩
    · exact .inl ⟨_, by omega, rfl⟩
    · exact ih later

/-! ### Groups -/

theorem valueAt_octet {value : Nat} (small : value < 64) (offset : Nat) :
    decodeGroups.valueAt offset (octet value) = .ok value := by
  rw [decodeGroups.valueAt, (symbol_cases small).2.1]

theorem lastGroup_octet {value : Nat} (small : value < 64) (start place : Nat) (rest : Bytes) :
    lastGroup start place 0 0 (octet value :: rest) =
      (lastGroup start (place + 1) 0 0 rest).map
        fun (symbols, count) => ((octet value, value) :: symbols, count) := by
  obtain ⟨-, read, ordinary⟩ := symbol_cases small
  rw [lastGroup, if_neg ordinary, if_neg (Nat.lt_irrefl 0), read]

/-- The first octet of a group has six bits in the first symbol and two in the second one. -/
theorem first_octet (a : UInt8) {low : Nat} (small : low < 16) :
    UInt8.ofNat (a.toNat / 4 * 4 + (a.toNat % 4 * 16 + low) / 16) = a := by
  have number : a.toNat / 4 * 4 + (a.toNat % 4 * 16 + low) / 16 = a.toNat := by omega
  rw [number, UInt8.ofNat_toNat]

theorem second_octet (high : Nat) (b : UInt8) {low : Nat} (small : low < 4) :
    UInt8.ofNat ((high * 16 + b.toNat / 16) % 16 * 16 + (b.toNat % 16 * 4 + low) / 4) = b := by
  have size := b.toNat_lt
  have number : (high * 16 + b.toNat / 16) % 16 * 16 + (b.toNat % 16 * 4 + low) / 4 = b.toNat := by
    omega
  rw [number, UInt8.ofNat_toNat]

theorem third_octet (high : Nat) (c : UInt8) :
    UInt8.ofNat ((high * 4 + c.toNat / 64) % 4 * 64 + c.toNat % 64) = c := by
  have size := c.toNat_lt
  have number : (high * 4 + c.toNat / 64) % 4 * 64 + c.toNat % 64 = c.toNat := by omega
  rw [number, UInt8.ofNat_toNat]

theorem decodeLast_one (start : Nat) (a : UInt8) :
    decodeLast start (toUtf8 (encode [a])) = .ok [a] := by
  have size := a.toNat_lt
  have signs : lastGroup start 2 0 0 [padding, padding] = .ok ([], 2) := rfl
  have nothing : a.toNat % 4 * 16 % 16 = 0 := by omega
  rw [encode, toUtf8_symbol (by omega), toUtf8_symbol (by omega)]
  change decodeLast start [octet (a.toNat / 4), octet (a.toNat % 4 * 16), padding, padding] = _
  rw [decodeLast, lastGroup_octet (by omega), lastGroup_octet (by omega), signs]
  simp only [Except.map, bind, Except.bind, pure, Except.pure, nothing, ne_eq, not_true_eq_false,
    if_false]
  rw [← Nat.add_zero (a.toNat % 4 * 16), first_octet a (by decide)]

theorem decodeLast_two (start : Nat) (a b : UInt8) :
    decodeLast start (toUtf8 (encode [a, b])) = .ok [a, b] := by
  have sizes := And.intro a.toNat_lt b.toNat_lt
  have sign : lastGroup start 3 0 0 [padding] = .ok ([], 1) := rfl
  have nothing : b.toNat % 16 * 4 % 4 = 0 := by omega
  rw [encode, toUtf8_symbol (by omega), toUtf8_symbol (by omega), toUtf8_symbol (by omega)]
  change decodeLast start [octet (a.toNat / 4), octet (a.toNat % 4 * 16 + b.toNat / 16),
    octet (b.toNat % 16 * 4), padding] = _
  rw [decodeLast, lastGroup_octet (by omega), lastGroup_octet (by omega),
    lastGroup_octet (by omega), sign]
  simp only [Except.map, bind, Except.bind, pure, Except.pure, nothing, ne_eq, not_true_eq_false,
    if_false]
  rw [first_octet a (by omega), ← Nat.add_zero (b.toNat % 16 * 4), second_octet _ b (by decide)]

theorem decodeLast_three (start : Nat) (a b c : UInt8) :
    decodeLast start (toUtf8 (encode [a, b, c])) = .ok [a, b, c] := by
  have sizes := And.intro a.toNat_lt (And.intro b.toNat_lt c.toNat_lt)
  rw [encode, encode, toUtf8_symbol (by omega), toUtf8_symbol (by omega),
    toUtf8_symbol (by omega), toUtf8_symbol (by omega), decodeLast, lastGroup_octet (by omega),
    lastGroup_octet (by omega), lastGroup_octet (by omega), lastGroup_octet (by omega)]
  simp only [toUtf8, List.flatMap_nil, lastGroup, Except.map, bind, Except.bind, pure, Except.pure]
  rw [first_octet a (by omega), second_octet _ b (by omega), third_octet]

theorem decodeGroups_of_length (start : Nat) {group : Bytes} (short : group.length ≤ 4) :
    decodeGroups start group = decodeLast start group := by
  rw [decodeGroups.eq_def]
  split
  next =>
    simp only [List.length_cons] at short
    omega
  next => rfl

theorem decodeGroups_symbols {va vb vc vd : Nat}
    (small : va < 64 ∧ vb < 64 ∧ vc < 64 ∧ vd < 64) (start : Nat) {rest : Bytes}
    (more : rest ≠ []) :
    decodeGroups start (octet va :: octet vb :: octet vc :: octet vd :: rest) =
      (decodeGroups (start + 4) rest).map fun after =>
        UInt8.ofNat (va * 4 + vb / 16) :: UInt8.ofNat (vb % 16 * 16 + vc / 4) ::
          UInt8.ofNat (vc % 4 * 64 + vd) :: after := by
  obtain ⟨e, rest, rfl⟩ := List.exists_cons_of_ne_nil more
  obtain ⟨a, b, c, d⟩ := small
  rw [decodeGroups, valueAt_octet a, valueAt_octet b, valueAt_octet c, valueAt_octet d]
  cases decodeGroups (start + 4) (e :: rest) <;> rfl

theorem toUtf8_encode (bytes : Bytes) :
    toUtf8 (encode bytes) = (encode bytes).map fun c => UInt8.ofNat c.toNat := by
  rw [toUtf8, List.map_eq_flatMap (l := encode bytes)]
  apply List.flatMap_congr
  intro c member
  rcases exists_of_mem_encode member with ⟨value, small, rfl⟩ | rfl
  · exact (symbol_cases small).1
  · rfl

/-- The octets of base64 text are those of the alphabet and of padding. -/
theorem value?_isSome_of_mem {bytes : Bytes} {b : UInt8} (member : b ∈ toUtf8 (encode bytes)) :
    (value? b).isSome ∨ b = padding := by
  rw [toUtf8_encode] at member
  obtain ⟨c, written, rfl⟩ := List.mem_map.mp member
  rcases exists_of_mem_encode written with ⟨value, small, rfl⟩ | rfl
  · exact .inl (Option.isSome_of_mem (symbol_cases small).2.1)
  · exact .inr rfl

theorem length_toUtf8_encode (bytes : Bytes) :
    (toUtf8 (encode bytes)).length = 4 * ((bytes.length + 2) / 3) := by
  rw [toUtf8_encode, List.length_map, length_encode]

theorem decodeGroups_short (start : Nat) {bytes : Bytes} (few : bytes.length ≤ 3) :
    decodeGroups start (toUtf8 (encode bytes)) = decodeLast start (toUtf8 (encode bytes)) := by
  apply decodeGroups_of_length
  rw [length_toUtf8_encode]
  omega

theorem decodeGroups_encode (start : Nat) (bytes : Bytes) :
    decodeGroups start (toUtf8 (encode bytes)) = .ok bytes := by
  induction bytes using encode.induct generalizing start with
  | case1 => rfl
  | case2 a => exact (decodeGroups_short start (by simp)).trans (decodeLast_one start a)
  | case3 a b => exact (decodeGroups_short start (by simp)).trans (decodeLast_two start a b)
  | case4 a b c rest ih =>
    by_cases last : rest = []
    · -- A group at the end is the last one, also if it is full.
      subst last
      exact (decodeGroups_short start (by simp)).trans (decodeLast_three start a b c)
    · have sizes := And.intro a.toNat_lt (And.intro b.toNat_lt c.toNat_lt)
      have more : toUtf8 (encode rest) ≠ [] := by
        apply List.ne_nil_of_length_pos
        have some := List.length_pos_iff.mpr last
        rw [length_toUtf8_encode]
        omega
      rw [encode, toUtf8_symbol (by omega), toUtf8_symbol (by omega), toUtf8_symbol (by omega),
        toUtf8_symbol (by omega), decodeGroups_symbols (by omega) start more, ih, Except.map,
        first_octet a (by omega), second_octet _ b (by omega), third_octet]

/-- Octets are read back from the text that is written for them. -/
theorem decode_encode (bytes : Bytes) : decode (toUtf8 (encode bytes)) = .ok bytes := by
  have size := length_toUtf8_encode bytes
  have groups := decodeGroups_encode 0 bytes
  rw [decode]
  split
  next last found =>
    rw [if_neg (by omega)]
    exact groups
  next none =>
    rw [List.getLast?_eq_none_iff.mp none] at groups
    exact groups

end TrustSchema.Codec.Base64
