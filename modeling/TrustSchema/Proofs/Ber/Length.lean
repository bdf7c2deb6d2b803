import Mathlib.Algebra.Group.Nat.Defs
import Mathlib.Data.List.Induction
import TrustSchema.Ber.Reader
import TrustSchema.Ber.Writer

/-!
The definite lengths of BER: one octet below 128, or up to four octets after one that counts them,
with leading zeros allowed. The reader accepts exactly these forms, and the writer gives the
shortest one, which is unique.
-/

namespace TrustSchema.Ber

/-- The number that octets write, the most significant first, after the value of earlier ones. -/
def valueAfter (value : Nat) (octets : Bytes) : Nat :=
  octets.foldl (fun value b => value * 256 + b.toNat) value

/-- The octets state a length in short or long form. -/
inductive DefiniteLength : Bytes → Nat → Prop
  | short (b : UInt8) : b.toNat < 128 → DefiniteLength [b] b.toNat
  | long (octets : Bytes) : 1 ≤ octets.length → octets.length ≤ maxLengthOctets →
      DefiniteLength (UInt8.ofNat (128 + octets.length) :: octets) (valueAfter 0 octets)

theorem valueAfter_append (value : Nat) (a b : Bytes) :
    valueAfter value (a ++ b) = valueAfter (valueAfter value a) b :=
  List.foldl_append

theorem valueAfter_concat (value : Nat) (octets : Bytes) (last : UInt8) :
    valueAfter value (octets ++ [last]) = valueAfter value octets * 256 + last.toNat := by
  rw [valueAfter_append]
  rfl

theorem valueAfter_lt (octets : Bytes) : valueAfter 0 octets < 256 ^ octets.length := by
  -- From the end: each octet multiplies what the ones before it write.
  induction octets using List.reverseRecOn with
  | nil => exact Nat.one_pos
  | append_singleton octets last ih =>
    have octet := last.toNat_lt
    rw [valueAfter_concat, List.length_append, List.length_singleton, Nat.pow_succ]
    omega

theorem valueAfter_inj (a b : Bytes) (size : a.length = b.length)
    (same : valueAfter 0 a = valueAfter 0 b) : a = b := by
  induction a using List.reverseRecOn generalizing b with
  | nil => exact (List.length_eq_zero_iff.mp size.symm).symm
  | append_singleton a x ih =>
    cases b using List.reverseRecOn with
    | nil => simp at size
    | append_singleton b y =>
      rw [valueAfter_concat, valueAfter_concat] at same
      have low := x.toNat_lt
      have low' := y.toNat_lt
      have last : x = y := UInt8.toNat_inj.mp (by omega)
      have before : a = b := ih b (by simpa using size) (by omega)
      rw [last, before]

theorem valueAfter_bigEndian (n : Nat) : valueAfter 0 (bigEndian n) = n := by
  induction n using Nat.strongRecOn with
  | ind n ih =>
    rw [bigEndian]
    split
    next zero => exact zero.symm
    next positive =>
      rw [valueAfter_concat, ih (n / 256) (by omega), UInt8.toNat_ofNat']
      omega

theorem length_bigEndian_le (n k : Nat) (small : n < 256 ^ k) : (bigEndian n).length ≤ k := by
  induction k generalizing n with
  | zero =>
    obtain rfl : n = 0 := by simpa using small
    simp [bigEndian]
  | succ k ih =>
    rw [bigEndian]
    split
    · exact Nat.zero_le _
    · rw [List.length_append, List.length_singleton]
      apply Nat.succ_le_succ
      apply ih
      rw [Nat.pow_succ] at small
      omega

/-! ### Reading -/

namespace Reader

theorem readNumber_append (offset value : Nat) (octets rest : Bytes) :
    readNumber offset value octets.length (octets ++ rest) =
      (.ok (valueAfter value octets), ⟨offset + octets.length, rest⟩) := by
  induction octets generalizing offset value with
  | nil => rfl
  | cons b octets ih =>
    rw [List.length_cons, List.cons_append, readNumber, ih, Nat.add_right_comm, Nat.add_assoc]
    rfl

theorem exists_of_readNumber {offset value count number : Nat} {unread : Bytes} {after : Reader}
    (read : readNumber offset value count unread = (.ok number, after)) :
    ∃ octets, unread = octets ++ after.unread ∧ octets.length = count ∧
      number = valueAfter value octets ∧ after.offset = offset + count := by
  induction count generalizing offset value unread with
  | zero =>
    cases read
    exact ⟨[], rfl, rfl, rfl, rfl⟩
  | succ count ih =>
    cases unread with
    | nil => cases read
    | cons b rest =>
      obtain ⟨octets, rfl, rfl, rfl, place⟩ := ih read
      exact ⟨b :: octets, rfl, rfl, rfl, by omega⟩

private theorem lead_toNat (count : Nat) (few : count ≤ maxLengthOctets) :
    (UInt8.ofNat (128 + count)).toNat = 128 + count := by
  have : count ≤ 4 := few
  rw [UInt8.toNat_ofNat']
  omega

theorem exists_of_readLength {r after : Reader} {n : Nat}
    (read : r.readLength = (.ok (.definite n), after)) :
    ∃ form, DefiniteLength form n ∧ r.unread = form ++ after.unread ∧
      after.offset = r.offset + form.length := by
  obtain ⟨offset, unread⟩ := r
  cases unread with
  | nil => simp [readLength, readByte] at read
  | cons first rest =>
    have reserved : (0x80 : UInt8).toNat = 128 := rfl
    simp only [readLength, readByte, UInt8.lt_iff_toNat_lt, ← UInt8.toNat_inj, reserved] at read
    split at read
    next small =>
      cases read
      exact ⟨[first], .short first small, rfl, rfl⟩
    split at read
    next => cases read
    split at read
    next => cases read
    split at read
    next => cases read
    next least marked few _ length last numbered =>
      cases read
      obtain ⟨octets, rfl, counted, rfl, place⟩ := exists_of_readNumber numbered
      -- Between 129 and 132, the first octet is the mark with the number of octets after it.
      have lead : first = UInt8.ofNat (128 + octets.length) := by
        apply UInt8.toNat_inj.mp
        rw [lead_toNat _ (by omega)]
        omega
      refine ⟨first :: octets, ?_, rfl, ?_⟩
      · rw [lead]
        exact .long octets (by omega) (by omega)
      · simp only [place, List.length_cons]
        omega

theorem readLength_append {form : Bytes} {n : Nat} (stated : DefiniteLength form n) (offset : Nat)
    (rest : Bytes) :
    readLength ⟨offset, form ++ rest⟩ = (.ok (.definite n), ⟨offset + form.length, rest⟩) := by
  have reserved : (0x80 : UInt8).toNat = 128 := rfl
  cases stated with
  | short b small =>
    simp only [readLength, readByte, List.singleton_append, UInt8.lt_iff_toNat_lt, reserved,
      if_pos small]
    rfl
  | long octets positive few =>
    have large : ¬128 + octets.length < 128 := by omega
    have marked : ¬128 + octets.length = 128 := by omega
    simp only [readLength, readByte, List.cons_append, UInt8.lt_iff_toNat_lt,
      ← UInt8.toNat_inj, reserved, lead_toNat _ few, if_neg large, if_neg marked,
      Nat.add_sub_cancel_left, if_neg (Nat.not_lt_of_le few), readNumber_append,
      List.length_cons, Nat.add_assoc, Nat.add_comm 1]

theorem readNumber_of_short {count : Nat} (offset value : Nat) {unread : Bytes}
    (short : unread.length < count) :
    ∃ place last, readNumber offset value count unread = (.error (.truncated place), last) := by
  induction unread generalizing offset value count with
  | nil =>
    obtain ⟨count, rfl⟩ := Nat.exists_eq_add_one_of_ne_zero (Nat.ne_of_gt short)
    exact ⟨_, _, rfl⟩
  | cons b rest ih =>
    cases count with
    | zero => cases short
    | succ count => exact ih (offset + 1) (value * 256 + b.toNat) (Nat.lt_of_succ_lt_succ short)

/-- Fewer octets than a length takes do not state one. -/
theorem readLength_take {form : Bytes} {n : Nat} (stated : DefiniteLength form n) (offset : Nat)
    {cut : Nat} (short : cut < form.length) :
    ∃ place last, readLength ⟨offset, form.take cut⟩ = (.error (.truncated place), last) := by
  cases cut with
  | zero => exact ⟨_, _, rfl⟩
  | succ cut =>
    cases stated with
    | short => exact absurd short (by simp)
    | long octets positive few =>
      have reserved : (0x80 : UInt8).toNat = 128 := rfl
      have large : ¬128 + octets.length < 128 := by omega
      have marked : ¬128 + octets.length = 128 := by omega
      have missing : (octets.take cut).length < octets.length := by
        rw [List.length_cons] at short
        rw [List.length_take]
        omega
      obtain ⟨place, last, ended⟩ := readNumber_of_short (offset + 1) 0 missing
      refine ⟨place, last, ?_⟩
      simp only [readLength, readByte, List.take_succ_cons, UInt8.lt_iff_toNat_lt,
        ← UInt8.toNat_inj, reserved, lead_toNat _ few, if_neg large, if_neg marked,
        Nat.add_sub_cancel_left, if_neg (Nat.not_lt_of_le few), ended]

end Reader

/-! ### Writing -/

theorem DefiniteLength.lt {form : Bytes} {n : Nat} (stated : DefiniteLength form n) :
    n < 256 ^ maxLengthOctets := by
  cases stated with
  | short b small => exact Nat.lt_of_lt_of_le small (by decide)
  | long octets positive few =>
    exact Nat.lt_of_lt_of_le (valueAfter_lt octets) (Nat.pow_le_pow_right (by decide) few)

theorem DefiniteLength.length_le {form : Bytes} {n : Nat} (stated : DefiniteLength form n) :
    form.length ≤ maxLengthOctets + 1 := by
  cases stated with
  | short b small => exact Nat.succ_le_succ (Nat.zero_le _)
  | long octets positive few => exact Nat.succ_le_succ few

theorem definiteLength_encodeLength {n : Nat} (bounded : n < 256 ^ maxLengthOctets) :
    DefiniteLength (encodeLength n) n := by
  rw [encodeLength]
  split
  next small =>
    have octet : (UInt8.ofNat n).toNat = n := by
      rw [UInt8.toNat_ofNat']
      omega
    have form := DefiniteLength.short (UInt8.ofNat n) (by rw [octet]; exact small)
    rwa [octet] at form
  next large =>
    have positive : 1 ≤ (bigEndian n).length := by
      rw [bigEndian, if_neg (by omega), List.length_append, List.length_singleton]
      exact Nat.le_add_left 1 _
    have form := DefiniteLength.long (bigEndian n) positive (length_bigEndian_le n _ bounded)
    rwa [valueAfter_bigEndian] at form

/-- No form of a length is shorter than the written one, and none of the same size differs. -/
theorem encodeLength_shortest {form : Bytes} {n : Nat} (stated : DefiniteLength form n) :
    (encodeLength n).length ≤ form.length ∧
      (form.length = (encodeLength n).length → form = encodeLength n) := by
  cases stated with
  | short b small =>
    rw [encodeLength, if_pos small, UInt8.ofNat_toNat]
    exact ⟨Nat.le_refl _, fun _ => rfl⟩
  | long octets positive few =>
    rw [encodeLength]
    split
    next small =>
      -- The short form has one octet, the long form at least two.
      simp only [List.length_cons, List.length_nil]
      exact ⟨by omega, fun size => by omega⟩
    next large =>
      have least := length_bigEndian_le _ _ (valueAfter_lt octets)
      simp only [List.length_cons]
      refine ⟨Nat.succ_le_succ least, fun size => ?_⟩
      -- As many octets that write the same number leave no room for a leading zero.
      have same : octets = bigEndian (valueAfter 0 octets) :=
        valueAfter_inj octets _ (Nat.succ.inj size) (valueAfter_bigEndian _).symm
      rw [← same]

/-- A form of a length than which none is shorter. -/
def ShortestLength (form : Bytes) (n : Nat) : Prop :=
  DefiniteLength form n ∧ ∀ other, DefiniteLength other n → form.length ≤ other.length

theorem shortestLength_iff {n : Nat} (bounded : n < 256 ^ maxLengthOctets) (form : Bytes) :
    ShortestLength form n ↔ form = encodeLength n := by
  have written := definiteLength_encodeLength bounded
  constructor
  · rintro ⟨stated, least⟩
    obtain ⟨le, unique⟩ := encodeLength_shortest stated
    exact unique (Nat.le_antisymm (least _ written) le)
  · rintro rfl
    exact ⟨written, fun other stated => (encodeLength_shortest stated).1⟩

end TrustSchema.Ber
