import Mathlib.Data.List.Basic
import TrustSchema.Ber.Reader

/-!
The identifier octets of BER. Every tag that can be read has one form only, the one that is
written: the reader accepts exactly the written identifiers of tags below the bound, apart from the
octet zero.
-/

namespace TrustSchema.Ber

/-- A tag that identifier octets can state: its number is below the bound, and it is not the one
whose octet is zero, which marks the end of contents. -/
structure Tag.Readable (t : Tag) : Prop where
  bounded : t.number < tagNumberBound
  notEnd : t ≠ ⟨.universal, false, 0⟩

namespace Tag

theorem continued_of_pos {n : Nat} (positive : n ≠ 0) :
    continued n = continued (n / 128) ++ [UInt8.ofNat (128 + n % 128)] := by
  rw [continued, if_neg positive]

theorem continued_zero : continued 0 = [] := by
  rw [continued, if_pos rfl]

theorem base128_ne_nil (n : Nat) : base128 n ≠ [] := by
  rw [base128]
  exact List.append_ne_nil_of_right_ne_nil _ (List.cons_ne_nil _ _)

private theorem head?_groups {n : Nat} {last : UInt8} (alone : n = 0 → last ≠ 0x80)
    (before : n ≠ 0 → (continued n).head? ≠ some 0x80) :
    (continued n ++ [last]).head? ≠ some 0x80 := by
  by_cases zero : n = 0
  · rw [zero, continued_zero, List.nil_append, List.head?_cons, ne_eq, Option.some.injEq]
    exact alone zero
  · have groups : continued n ≠ [] := by
      rw [continued_of_pos zero]
      exact List.append_ne_nil_of_right_ne_nil _ (List.cons_ne_nil _ _)
    rw [List.head?_append_of_ne_nil _ groups]
    exact before zero

theorem head?_continued (n : Nat) : (continued n).head? ≠ some 0x80 := by
  induction n using Nat.strongRecOn with
  | ind n ih =>
    by_cases zero : n = 0
    · rw [zero, continued_zero]
      exact nofun
    · rw [continued_of_pos zero]
      apply head?_groups
      · intro single same
        have octet : (UInt8.ofNat (128 + n % 128)).toNat = 128 := congrArg UInt8.toNat same
        rw [UInt8.toNat_ofNat'] at octet
        omega
      · intro _
        exact ih (n / 128) (by omega)

theorem head?_base128 (n : Nat) : (base128 n).head? ≠ some 0x80 := by
  rw [base128]
  apply head?_groups
  · intro single same
    have octet : (UInt8.ofNat (n % 128)).toNat = 128 := congrArg UInt8.toNat same
    rw [UInt8.toNat_ofNat'] at octet
    omega
  · intro _
    exact head?_continued (n / 128)

end Tag

namespace Reader

open Tag

theorem readTagNumber_continued (start offset n : Nat) (rest : Bytes)
    (bounded : n < tagNumberBound) :
    readTagNumber start offset 0 (continued n ++ rest) =
      readTagNumber start (offset + (continued n).length) n rest := by
  induction n using Nat.strongRecOn generalizing rest with
  | ind n ih =>
    by_cases zero : n = 0
    · rw [zero, continued_zero]
      rfl
    · have octet : (UInt8.ofNat (128 + n % 128)).toNat = 128 + n % 128 := by
        rw [UInt8.toNat_ofNat']
        omega
      have number : n / 128 * 128 + (128 + n % 128) % 128 = n := by omega
      have space : ¬tagNumberBound ≤ n / 128 * 128 := by omega
      have more : ¬128 + n % 128 < 128 := by omega
      rw [continued_of_pos zero, List.append_assoc, List.singleton_append,
        ih (n / 128) (by omega) _ (by omega), readTagNumber, if_neg space]
      dsimp only
      rw [octet, number, if_neg more, List.length_append, List.length_singleton, Nat.add_assoc]

theorem readTagNumber_base128 (start offset n : Nat) (rest : Bytes)
    (bounded : n < tagNumberBound) :
    readTagNumber start offset 0 (base128 n ++ rest) =
      (.ok n, ⟨offset + (base128 n).length, rest⟩) := by
  have octet : (UInt8.ofNat (n % 128)).toNat = n % 128 := by
    rw [UInt8.toNat_ofNat']
    omega
  have number : n / 128 * 128 + n % 128 % 128 = n := by omega
  have space : ¬tagNumberBound ≤ n / 128 * 128 := by omega
  have final : n % 128 < 128 := by omega
  rw [base128, List.append_assoc, List.singleton_append,
    readTagNumber_continued _ _ _ _ (by omega), readTagNumber, if_neg space]
  dsimp only
  rw [octet, number, if_pos final, List.length_append, List.length_singleton, Nat.add_assoc]

/-- What is read as a tag number are the groups of that number, the value so far included. -/
theorem exists_of_readTagNumber {start offset value n : Nat} {unread : Bytes} {after : Reader}
    (read : readTagNumber start offset value unread = (.ok n, after))
    (proper : value = 0 → unread.head? ≠ some 0x80) :
    ∃ groups, unread = groups ++ after.unread ∧ continued value ++ groups = base128 n ∧
      after.offset = offset + groups.length ∧ n < tagNumberBound := by
  fun_induction readTagNumber start offset value unread with
  | case1 => cases read
  | case2 => cases read
  | case3 offset value b rest space number final =>
    obtain ⟨same, rfl⟩ := Prod.mk.inj read
    obtain rfl : number = n := Except.ok.inj same
    have low : number % 128 = b.toNat := by omega
    have high : number / 128 = value := by omega
    refine ⟨[b], rfl, ?_, rfl, ?_⟩
    · rw [base128, high, low, UInt8.ofNat_toNat]
    · have whole : tagNumberBound = 33554432 * 128 := rfl
      omega
  | case4 offset value b rest space number more ih =>
    have octet := b.toNat_lt
    have low : 128 + number % 128 = b.toNat := by omega
    have high : number / 128 = value := by omega
    -- A group of zero with nothing before it is refused, so that the value has begun from here on.
    have begun : number ≠ 0 := by
      intro zero
      have first : b = 0x80 := by
        apply UInt8.toNat_inj.mp
        show b.toNat = 128
        omega
      have none : value = 0 := by omega
      exact proper none (by rw [first, List.head?_cons])
    obtain ⟨groups, rfl, whole, place, bounded⟩ := ih read (fun zero => absurd zero begun)
    refine ⟨b :: groups, rfl, ?_, ?_, bounded⟩
    · rw [continued_of_pos begun, high, low, UInt8.ofNat_toNat, List.append_assoc] at whole
      exact whole
    · rw [place, List.length_cons]
      omega

theorem readLongTagNumber_ok_iff (start : Nat) (r after : Reader) (n : Nat) :
    r.readLongTagNumber start = (.ok n, after) ↔
      longForm ≤ n ∧ n < tagNumberBound ∧ r.unread = base128 n ++ after.unread ∧
        after.offset = r.offset + (base128 n).length := by
  obtain ⟨offset, unread⟩ := r
  constructor
  · intro read
    simp only [readLongTagNumber] at read
    split at read
    next => cases read
    next proper =>
      split at read
      next => cases read
      next number last numbered =>
        split at read
        next => cases read
        next long =>
          cases read
          obtain ⟨groups, rfl, whole, place, bounded⟩ :=
            exists_of_readTagNumber numbered (fun _ => proper)
          rw [continued_zero, List.nil_append] at whole
          rw [← whole]
          exact ⟨Nat.le_of_not_lt long, bounded, rfl, place⟩
  · obtain ⟨last, rest⟩ := after
    rintro ⟨long, bounded, rfl, place⟩
    dsimp only at place ⊢
    subst place
    have proper : (base128 n ++ rest).head? ≠ some 0x80 := by
      rw [List.head?_append_of_ne_nil _ (base128_ne_nil n)]
      exact head?_base128 n
    simp only [readLongTagNumber, if_neg proper, readTagNumber_base128 _ _ _ _ bounded,
      if_neg (Nat.not_lt_of_le long)]

end Reader

theorem TagClass.bits_lt (c : TagClass) : c.bits < 4 := by
  cases c <;> decide

theorem TagClass.bits_ofBits {bits : Nat} (two : bits < 4) : (ofBits bits).bits = bits := by
  match bits, two with
  | 0, _ | 1, _ | 2, _ | 3, _ => rfl

/-- The first octet of an identifier, with the number or the mark of the long form in its low five
bits. -/
theorem Tag.leading_add (t : Tag) (low : Nat) (small : low < 32) :
    t.leading + low < 256 ∧ TagClass.ofBits ((t.leading + low) / 64) = t.tagClass ∧
      decide ((t.leading + low) / 32 % 2 = 1) = t.constructed ∧ (t.leading + low) % 32 = low := by
  have bits := t.tagClass.bits_lt
  have high : (t.leading + low) / 64 = t.tagClass.bits := by
    rw [leading]
    split <;> omega
  refine ⟨?_, ?_, ?_, ?_⟩
  · rw [leading]
    split <;> omega
  · rw [high, TagClass.ofBits_bits]
  · rw [leading]
    cases t.constructed with
    | true =>
      rw [if_pos rfl, decide_eq_true_eq]
      omega
    | false =>
      rw [if_neg Bool.false_ne_true, decide_eq_false_iff_not]
      omega
  · rw [leading]
    split <;> omega

/-- The class and form of an octet give back its high bits. -/
theorem Tag.leading_of_octet (b : UInt8) (number : Nat) :
    (⟨TagClass.ofBits (b.toNat / 64), decide (b.toNat / 32 % 2 = 1), number⟩ : Tag).leading +
      b.toNat % 32 = b.toNat := by
  have octet := b.toNat_lt
  rw [leading, TagClass.bits_ofBits (by omega)]
  simp only [decide_eq_true_eq]
  split <;> omega

namespace Reader

open Tag

/-- What is read as a tag is the identifier that is written for it. -/
theorem eq_encode_of_readTag {r after : Reader} {t : Tag} (read : r.readTag = (.ok t, after)) :
    t.Readable ∧ r.unread = t.encode ++ after.unread ∧
      after.offset = r.offset + t.encode.length := by
  obtain ⟨offset, unread⟩ := r
  cases unread with
  | nil => cases read
  | cons first rest =>
    have whole := leading_of_octet first
    simp only [readTag, readByte] at read
    split at read
    next => cases read
    next nonzero =>
      split at read
      next short =>
        cases read
        have octet := whole (first.toNat % 32)
        refine ⟨⟨?_, ?_⟩, ?_, ?_⟩
        · exact Nat.lt_trans (Nat.mod_lt _ (by decide)) (by decide)
        · -- The excluded tag would come from the octet zero, which is refused.
          intro same
          have low : first.toNat % 32 = 0 := (Tag.mk.inj same).2.2
          rw [same, low] at octet
          exact nonzero (UInt8.toNat_inj.mp octet.symm)
        · rw [encode, if_pos short, octet, UInt8.ofNat_toNat]
          rfl
        · rw [encode, if_pos short]
          rfl
      next long =>
        split at read
        next => cases read
        next number last numbered =>
          cases read
          obtain ⟨least, bounded, groups, place⟩ := (readLongTagNumber_ok_iff _ _ _ _).mp numbered
          -- Five bits that are not below the mark of the long form are that mark.
          have five : first.toNat % 32 = longForm := by
            have mark : longForm = 31 := rfl
            omega
          have octet := whole number
          rw [five] at octet
          refine ⟨⟨bounded, ?_⟩, ?_, ?_⟩
          · intro same
            have none : number = 0 := (Tag.mk.inj same).2.2
            rw [none] at least
            exact absurd least (by decide)
          · rw [encode, if_neg (Nat.not_lt_of_le least), octet, UInt8.ofNat_toNat]
            exact congrArg (first :: ·) groups
          · rw [encode, if_neg (Nat.not_lt_of_le least), place, List.length_cons, Nat.add_assoc,
              Nat.add_comm 1]

/-- The identifier that is written for a readable tag is read as that tag. -/
theorem readTag_encode {t : Tag} (readable : t.Readable) (offset : Nat) (rest : Bytes) :
    readTag ⟨offset, t.encode ++ rest⟩ = (.ok t, ⟨offset + t.encode.length, rest⟩) := by
  by_cases short : t.number < longForm
  · obtain ⟨fits, tagClass, form, low⟩ :=
      t.leading_add t.number (Nat.lt_of_lt_of_le short (by decide))
    have octet : (UInt8.ofNat (t.leading + t.number)).toNat = t.leading + t.number :=
      UInt8.toNat_ofNat_of_lt fits
    have nonzero : UInt8.ofNat (t.leading + t.number) ≠ 0 := by
      intro zero
      rw [zero] at octet
      -- All bits are zero, so that the tag is the excluded one.
      have none : t.leading + t.number = 0 := octet.symm
      rw [none] at tagClass form low
      apply readable.notEnd
      cases t
      exact Tag.mk.injEq .. ▸ ⟨tagClass.symm, form.symm, low.symm⟩
    rw [encode, if_pos short]
    simp only [readTag, readByte, List.singleton_append, if_neg nonzero, octet, tagClass, form,
      low, if_pos short, List.length_singleton]
  · obtain ⟨fits, tagClass, form, low⟩ := t.leading_add longForm (by decide)
    have octet : (UInt8.ofNat (t.leading + longForm)).toNat = t.leading + longForm :=
      UInt8.toNat_ofNat_of_lt fits
    have nonzero : UInt8.ofNat (t.leading + longForm) ≠ 0 := by
      intro zero
      rw [zero] at octet
      have none : 0 = t.leading + longForm := octet
      have mark : longForm = 31 := rfl
      omega
    have groups := (readLongTagNumber_ok_iff offset ⟨offset + 1, base128 t.number ++ rest⟩
      ⟨offset + 1 + (base128 t.number).length, rest⟩ t.number).mpr
      ⟨Nat.le_of_not_lt short, readable.bounded, rfl, rfl⟩
    rw [encode, if_neg short]
    simp only [readTag, readByte, List.cons_append, if_neg nonzero, octet, tagClass, form, low,
      if_neg (Nat.lt_irrefl longForm), groups, List.length_cons]
    rw [Nat.add_assoc, Nat.add_comm 1]

/-- A tag number needs every group that is read for it. -/
theorem readTagNumber_take {start offset value n : Nat} {unread : Bytes} {after : Reader}
    (read : readTagNumber start offset value unread = (.ok n, after)) {cut : Nat}
    (short : cut + after.remaining < unread.length) :
    ∃ place last, readTagNumber start offset value (unread.take cut) =
      (.error (.truncated place), last) := by
  fun_induction readTagNumber start offset value unread generalizing cut with
  | case1 => cases read
  | case2 => cases read
  | case3 offset value b rest space number final =>
    obtain ⟨-, rfl⟩ := Prod.mk.inj read
    obtain rfl : cut = 0 := by
      simp only [remaining, List.length_cons] at short
      omega
    exact ⟨_, _, rfl⟩
  | case4 offset value b rest space number more ih =>
    cases cut with
    | zero => exact ⟨_, _, rfl⟩
    | succ cut =>
      have within : cut + after.remaining < rest.length := by
        rw [List.length_cons] at short
        omega
      obtain ⟨place, last, ended⟩ := ih read within
      refine ⟨place, last, ?_⟩
      rw [List.take_succ_cons, readTagNumber, if_neg space]
      exact (if_neg more).trans ended

theorem readLongTagNumber_take {start n : Nat} {r after : Reader}
    (read : r.readLongTagNumber start = (.ok n, after)) {cut : Nat}
    (short : cut + after.remaining < r.remaining) :
    ∃ place last, readLongTagNumber start ⟨r.offset, r.unread.take cut⟩ =
      (.error (.truncated place), last) := by
  simp only [readLongTagNumber] at read
  split at read
  next => cases read
  next proper =>
    split at read
    next => cases read
    next number last numbered =>
      split at read
      next => cases read
      next =>
        cases read
        obtain ⟨place, last, ended⟩ := readTagNumber_take numbered short
        -- The first group is the same, or there is none.
        have proper' : (r.unread.take cut).head? ≠ some 0x80 := by
          rw [List.head?_take]
          split
          · exact nofun
          · exact proper
        refine ⟨place, last, ?_⟩
        simp only [readLongTagNumber, if_neg proper', ended]

/-- Fewer octets than an identifier takes are none. -/
theorem readTag_take {t : Tag} (readable : t.Readable) (offset : Nat) {cut : Nat}
    (short : cut < t.encode.length) :
    ∃ place last, readTag ⟨offset, t.encode.take cut⟩ = (.error (.truncated place), last) := by
  have read := readTag_encode readable offset []
  rw [List.append_nil] at read
  cases encoded : t.encode with
  | nil =>
    rw [encoded] at short
    cases short
  | cons first rest =>
    rw [encoded] at read short
    cases cut with
    | zero => exact ⟨_, _, rfl⟩
    | succ cut =>
      simp only [readTag, readByte] at read
      simp only [List.take_succ_cons, readTag, readByte]
      split at read
      next => cases read
      next nonzero =>
        rw [if_neg nonzero]
        split at read
        next =>
          -- The first octet is the whole identifier.
          obtain ⟨-, alone⟩ := Prod.mk.inj read
          obtain rfl : rest = [] := (Reader.mk.inj alone).2
          exact absurd short (by simp)
        next long =>
          rw [if_neg long]
          split at read
          next => cases read
          next number last numbered =>
            obtain ⟨-, rfl⟩ := Prod.mk.inj read
            have within : cut < rest.length := Nat.lt_of_succ_lt_succ short
            obtain ⟨place, last, ended⟩ := readLongTagNumber_take numbered within
            simp only [ended]
            exact ⟨place, last, rfl⟩

end Reader

/-! ### One identifier for each tag -/

/-- Octets that are read as one tag, with nothing left over. -/
def IsIdentifier (octets : Bytes) (tag : Tag) : Prop :=
  ∃ after, (Reader.ofBytes octets).readTag = (.ok tag, after) ∧ after.isEmpty = true

theorem isIdentifier_iff (octets : Bytes) (tag : Tag) :
    IsIdentifier octets tag ↔ tag.Readable ∧ octets = tag.encode := by
  constructor
  · rintro ⟨after, read, none⟩
    obtain ⟨readable, whole, -⟩ := Reader.eq_encode_of_readTag read
    rw [List.isEmpty_iff.mp none, List.append_nil] at whole
    exact ⟨readable, whole⟩
  · rintro ⟨readable, rfl⟩
    have read := Reader.readTag_encode readable 0 []
    rw [List.append_nil] at read
    exact ⟨_, read, rfl⟩

/-- The number that groups of seven bits write after the value of earlier ones, however large. -/
def groupsAfter (value : Nat) (groups : Bytes) : Nat :=
  groups.foldl (fun value b => value * 128 + b.toNat % 128) value

/-- The number that identifier octets write, however large: five bits of a single octet, or all
groups after the first octet. -/
def identifierNumber : Bytes → Nat
  | [] => 0
  | [first] => first.toNat % 32
  | _ :: groups => groupsAfter 0 groups

theorem groupsAfter_concat (value : Nat) (groups : Bytes) (last : UInt8) :
    groupsAfter value (groups ++ [last]) = groupsAfter value groups * 128 + last.toNat % 128 :=
  List.foldl_append

theorem groupsAfter_continued (n : Nat) : groupsAfter 0 (Tag.continued n) = n := by
  induction n using Nat.strongRecOn with
  | ind n ih =>
    by_cases zero : n = 0
    · rw [zero, Tag.continued_zero]
      rfl
    · rw [Tag.continued_of_pos zero, groupsAfter_concat, ih (n / 128) (by omega),
        UInt8.toNat_ofNat']
      omega

theorem groupsAfter_base128 (n : Nat) : groupsAfter 0 (Tag.base128 n) = n := by
  rw [Tag.base128, groupsAfter_concat, groupsAfter_continued, UInt8.toNat_ofNat']
  omega

theorem identifierNumber_encode (t : Tag) : identifierNumber t.encode = t.number := by
  rw [Tag.encode]
  split
  next short =>
    obtain ⟨fits, -, -, low⟩ := t.leading_add t.number (Nat.lt_of_lt_of_le short (by decide))
    have octet : (UInt8.ofNat (t.leading + t.number)).toNat = t.leading + t.number :=
      UInt8.toNat_ofNat_of_lt fits
    rw [identifierNumber, octet, low]
  next long =>
    have groups := groupsAfter_base128 t.number
    cases written : Tag.base128 t.number with
    | nil => exact absurd written (Tag.base128_ne_nil _)
    | cons b rest =>
      rw [written] at groups
      exact groups

end TrustSchema.Ber
