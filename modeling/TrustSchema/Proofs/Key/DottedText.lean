import TrustSchema.Proofs.Ber.Identifier
import TrustSchema.Proofs.Key.Parameters
import TrustSchema.Proofs.Name.Uri

/-!
The dotted text of an object identifier, and which keys are refused with a given one. An arc has one
shortest form in groups of seven bits, and longer ones with groups of zero before it. All of them
have the same value, so that octets which differ from those of RSA encryption may have its text.
-/

namespace TrustSchema

namespace Text

theorem not_mem_ofNat {c : Char} (other : c.isDigit = false) (n : Nat) : c ∉ ofNat n := by
  intro member
  rw [Nat.isDigit_of_mem_toDigits (by decide) (by decide) member] at other
  cases other

theorem not_mem_intercalate {c separator : Char} {pieces : List Text} (different : c ≠ separator)
    (absent : ∀ piece ∈ pieces, c ∉ piece) : c ∉ [separator].intercalate pieces := by
  induction pieces with
  | nil => exact List.not_mem_nil
  | cons piece pieces ih =>
    obtain ⟨first, others⟩ := List.forall_mem_cons.mp absent
    cases pieces with
    | nil => rwa [List.intercalate_singleton]
    | cons next pieces =>
      simp only [List.intercalate_cons_cons, List.mem_append, List.mem_singleton, not_or]
      exact ⟨⟨first, different⟩, ih others⟩

theorem mem_intercalate_separator (separator : Char) (first second : Text) (pieces : List Text) :
    separator ∈ [separator].intercalate (first :: second :: pieces) := by
  simp [List.intercalate_cons_cons]

end Text

namespace Key

open Ber ObjectIdentifier

/-- Octets of an arc: its shortest form, with any number of groups of zero before it. -/
def ArcForm (arc : Nat) (form : Bytes) : Prop :=
  ∃ padding, form = List.replicate padding 0x80 ++ Tag.base128 arc

/-- The octets do not end inside an arc. -/
def Closed (octets : Bytes) : Prop :=
  ∀ last ∈ octets.getLast?, last < 0x80

theorem closed_nil : Closed [] :=
  nofun

/-- What follows the first octet of an arc that goes on ends an arc. -/
theorem Closed.tail {b : UInt8} {rest : Bytes} (closed : Closed (b :: rest)) : Closed rest := by
  cases rest with
  | nil => exact closed_nil
  | cons next rest =>
    rw [Closed, List.getLast?_cons_cons] at closed
    exact closed

theorem Closed.ne_nil {b : UInt8} {rest : Bytes} (closed : Closed (b :: rest))
    (more : ¬b.toNat < 128) : rest ≠ [] := by
  rintro rfl
  exact more (UInt8.lt_iff_toNat_lt.mp (closed b rfl))

theorem Closed.append {back : Bytes} (closed : Closed back) (some : back ≠ []) (front : Bytes) :
    Closed (front ++ back) := by
  rw [Closed, List.getLast?_append_of_ne_nil _ some]
  exact closed

theorem ArcForm.ne_nil {arc : Nat} {form : Bytes} (written : ArcForm arc form) : form ≠ [] := by
  obtain ⟨padding, rfl⟩ := written
  exact List.append_ne_nil_of_right_ne_nil _ (Tag.base128_ne_nil arc)

theorem ArcForm.closed {arc : Nat} {form : Bytes} (written : ArcForm arc form) : Closed form := by
  obtain ⟨padding, rfl⟩ := written
  apply Closed.append _ (Tag.base128_ne_nil arc)
  rw [Tag.base128]
  apply Closed.append _ (List.cons_ne_nil _ _)
  rintro _ ⟨⟩
  rw [List.getLast_singleton, UInt8.lt_iff_toNat_lt, UInt8.toNat_ofNat']
  show arc % 128 % 256 < 128
  omega

theorem closed_flatten {written : List Nat} {forms : List Bytes}
    (each : List.Forall₂ ArcForm written forms) : Closed forms.flatten := by
  induction each with
  | nil => exact closed_nil
  | @cons _ form _ forms first _ ih =>
    rw [List.flatten_cons]
    by_cases last : forms.flatten = []
    · rw [last, List.append_nil]
      exact first.closed
    · exact ih.append last form

/-- Without an octet of zero that goes on, every arc has its shortest form. -/
theorem eq_base128_of_forms {written : List Nat} {forms : List Bytes}
    (each : List.Forall₂ ArcForm written forms) (absent : 0x80 ∉ forms.flatten) :
    forms = written.map Tag.base128 := by
  induction each with
  | nil => rfl
  | cons first _ ih =>
    obtain ⟨padding, rfl⟩ := first
    rw [List.flatten_cons, List.mem_append, not_or] at absent
    cases padding with
    | zero => rw [ih absent.2]; rfl
    | succ padding => exact absurd (by simp [List.replicate_succ]) absent.1

/-! ### Reading arcs -/

theorem arcs_continued (count n : Nat) (rest : Bytes) :
    arcs 0 count (Tag.continued n ++ rest) = arcs n (count + (Tag.continued n).length) rest := by
  induction n using Nat.strongRecOn generalizing rest with
  | ind n ih =>
    by_cases zero : n = 0
    · rw [zero, Tag.continued_zero]
      rfl
    · have octet : (UInt8.ofNat (128 + n % 128)).toNat = 128 + n % 128 := by
        rw [UInt8.toNat_ofNat']
        omega
      have number : n / 128 * 128 + (128 + n % 128) % 128 = n := by omega
      have more : ¬128 + n % 128 < 128 := by omega
      rw [Tag.continued_of_pos zero, List.append_assoc, List.singleton_append,
        ih (n / 128) (by omega), arcs, octet, number, if_neg more, List.length_append,
        List.length_singleton, Nat.add_assoc]

theorem arcs_padding (count padding : Nat) (rest : Bytes) :
    arcs 0 count (List.replicate padding 0x80 ++ rest) = arcs 0 (count + padding) rest := by
  induction padding generalizing count with
  | zero => rfl
  | succ padding ih =>
    rw [List.replicate_succ, List.cons_append, arcs]
    exact (ih (count + 1)).trans (by rw [Nat.add_assoc, Nat.add_comm 1])

/-- Any form of an arc is read as the arc, with the number of its octets. -/
theorem ArcForm.arcs {arc : Nat} {form : Bytes} (written : ArcForm arc form) (rest : Bytes) :
    arcs 0 0 (form ++ rest) = (arc, form.length) :: arcs 0 0 rest := by
  obtain ⟨padding, rfl⟩ := written
  have octet : (UInt8.ofNat (arc % 128)).toNat = arc % 128 := by
    rw [UInt8.toNat_ofNat']
    omega
  have number : arc / 128 * 128 + arc % 128 % 128 = arc := by omega
  have final : arc % 128 < 128 := by omega
  rw [List.append_assoc, arcs_padding, Tag.base128, List.append_assoc, arcs_continued,
    List.singleton_append, ObjectIdentifier.arcs, octet, number, if_pos final]
  simp only [List.length_append, List.length_replicate, List.length_singleton, Nat.zero_add,
    Nat.add_assoc]

/-- What is read as the first arc are groups of it, the value so far included. -/
theorem exists_of_arcs {octets : Bytes} (closed : Closed octets) (nonempty : octets ≠ [])
    (value count : Nat) :
    ∃ arc groups rest, octets = groups ++ rest ∧ Closed rest ∧ groups ≠ [] ∧
      (value ≠ 0 → Tag.continued value ++ groups = Tag.base128 arc) ∧
      (value = 0 → ArcForm arc groups) ∧
      arcs value count octets = (arc, count + groups.length) :: arcs 0 0 rest := by
  induction octets generalizing value count with
  | nil => exact absurd rfl nonempty
  | cons b octets ih =>
    have octet := b.toNat_lt
    rw [arcs]
    by_cases final : b.toNat < 128
    · have low : (value * 128 + b.toNat % 128) % 128 = b.toNat := by omega
      have high : (value * 128 + b.toNat % 128) / 128 = value := by omega
      have whole : Tag.base128 (value * 128 + b.toNat % 128) = Tag.continued value ++ [b] := by
        rw [Tag.base128, high, low, UInt8.ofNat_toNat]
      refine ⟨value * 128 + b.toNat % 128, [b], octets, rfl, closed.tail, List.cons_ne_nil _ _,
        fun _ => whole.symm, ?_, if_pos final⟩
      rintro rfl
      exact ⟨0, by rw [whole, Tag.continued_zero]; rfl⟩
    · rw [if_neg final]
      obtain ⟨arc, groups, rest, rfl, after, -, begun, padded, read⟩ :=
        ih closed.tail (closed.ne_nil final) (value * 128 + b.toNat % 128) (count + 1)
      refine ⟨arc, b :: groups, rest, rfl, after, List.cons_ne_nil _ _, ?_, ?_, ?_⟩
      · intro some
        have low : 128 + (value * 128 + b.toNat % 128) % 128 = b.toNat := by omega
        have high : (value * 128 + b.toNat % 128) / 128 = value := by omega
        have nonzero : value * 128 + b.toNat % 128 ≠ 0 := by omega
        have whole := begun nonzero
        rwa [Tag.continued_of_pos nonzero, high, low, UInt8.ofNat_toNat, List.append_assoc] at whole
      · rintro rfl
        by_cases zero : 0 * 128 + b.toNat % 128 = 0
        · -- A group of zero before the value has begun.
          have mark : b = 0x80 := by
            apply UInt8.toNat_inj.mp
            show b.toNat = 128
            omega
          obtain ⟨padding, rfl⟩ := padded zero
          exact ⟨padding + 1, by rw [mark, List.replicate_succ]; rfl⟩
        · have low : 128 + (0 * 128 + b.toNat % 128) % 128 = b.toNat := by omega
          have high : (0 * 128 + b.toNat % 128) / 128 = 0 := by omega
          have whole := begun zero
          rw [Tag.continued_of_pos zero, high, low, UInt8.ofNat_toNat, Tag.continued_zero] at whole
          exact ⟨0, whole⟩
      · rw [read, List.length_cons]
        congr 2
        omega

/-- Arcs that are read are those whose forms follow one another. -/
theorem arcs_eq_iff {octets : Bytes} (closed : Closed octets) (written : List (Nat × Nat)) :
    arcs 0 0 octets = written ↔ ∃ forms, octets = forms.flatten ∧
      List.Forall₂ (fun arc form => ArcForm arc.1 form ∧ form.length = arc.2) written forms := by
  constructor
  · rintro rfl
    induction size : octets.length using Nat.strongRecOn generalizing octets with
    | ind length ih =>
      by_cases none : octets = []
      · subst none
        exact ⟨[], rfl, .nil⟩
      · obtain ⟨arc, groups, rest, rfl, after, some, -, form, read⟩ :=
          exists_of_arcs closed none 0 0
        have longer : rest.length < length := by
          have positive := List.length_pos_iff.mpr some
          rw [← size, List.length_append]
          omega
        obtain ⟨forms, rfl, others⟩ := ih _ longer after rfl
        rw [read, Nat.zero_add]
        exact ⟨groups :: forms, rfl, .cons ⟨form rfl, rfl⟩ others⟩
  · rintro ⟨forms, rfl, each⟩
    clear closed
    induction each with
    | nil => rfl
    | @cons arc form _ _ first _ ih =>
      rw [List.flatten_cons, first.1.arcs, ih, first.2]

/-! ### Dotted texts -/

/-- Numbers with periods between them. -/
def dotted (numbers : List Nat) : Text :=
  ['.'].intercalate (numbers.map Text.ofNat)

theorem dotted_inj {numbers others : List Nat} (some : numbers ≠ []) (some' : others ≠ []) :
    dotted numbers = dotted others ↔ numbers = others := by
  have parts {listed : List Nat} (nonempty : listed ≠ []) :
      Text.Parts '.' (dotted listed) (listed.map Text.ofNat) := by
    refine ⟨fun none => nonempty (List.map_eq_nil_iff.mp none), ?_, rfl⟩
    simp only [List.forall_mem_map]
    exact fun n _ => Text.not_mem_ofNat (by decide) n
  constructor
  · intro same
    have split := (Text.parts_iff _ _ _).mp (parts some)
    rw [same, ← (Text.parts_iff _ _ _).mp (parts some')] at split
    exact List.map_injective_iff.mpr Text.ofNat_injective split
  · rintro rfl
    rfl

theorem not_mem_dotted (numbers : List Nat) : ' ' ∉ dotted numbers := by
  apply Text.not_mem_intercalate (by decide)
  simp only [List.forall_mem_map]
  exact fun n _ => Text.not_mem_ofNat (by decide) n

/-- The octets write the numbers: the first octet the first two of them, and one form each the
others, of at most nine octets. -/
def WritesArcs (octets : Bytes) (high low : Nat) (later : List Nat) : Prop :=
  ∃ first forms, octets = first :: forms.flatten ∧ first.toNat / 40 = high ∧
    first.toNat % 40 = low ∧
    List.Forall₂ (fun arc form => ArcForm arc form ∧ form.length ≤ maxArcOctets) later forms

theorem WritesArcs.ne_nil {octets : Bytes} {high low : Nat} {later : List Nat}
    (written : WritesArcs octets high low later) : octets ≠ [] := by
  obtain ⟨first, forms, rfl, -⟩ := written
  exact List.cons_ne_nil _ _

theorem WritesArcs.closed {octets : Bytes} {high low : Nat} {later : List Nat} (more : later ≠ [])
    (written : WritesArcs octets high low later) : Closed octets := by
  obtain ⟨first, forms, rfl, -, -, each⟩ := written
  have inside := closed_flatten (each.imp fun _ _ => And.left)
  cases each with
  | nil => exact absurd rfl more
  | cons head _ => exact inside.append (List.append_ne_nil_of_left_ne_nil head.1.ne_nil _) [first]

/-- Arcs that fit are those whose forms of at most nine octets follow one another. -/
theorem arcs_fit_iff {octets : Bytes} (closed : Closed octets) (later : List Nat) :
    (arcs 0 0 octets).map Prod.fst = later ∧ (∀ arc ∈ arcs 0 0 octets, arc.2 ≤ maxArcOctets) ↔
      ∃ forms, octets = forms.flatten ∧
        List.Forall₂ (fun arc form => ArcForm arc form ∧ form.length ≤ maxArcOctets)
          later forms := by
  constructor
  · rintro ⟨rfl, fits⟩
    obtain ⟨forms, whole, each⟩ := (arcs_eq_iff closed _).mp rfl
    refine ⟨forms, whole, ?_⟩
    clear whole
    generalize arcs 0 0 octets = written at fits each
    induction each with
    | nil => exact .nil
    | cons first _ ih =>
      obtain ⟨short, others⟩ := List.forall_mem_cons.mp fits
      exact .cons ⟨first.1, first.2 ▸ short⟩ (ih others)
  · rintro ⟨forms, rfl, each⟩
    clear closed
    induction each with
    | nil => exact ⟨rfl, nofun⟩
    | cons first _ ih =>
      rw [List.flatten_cons, first.1.arcs, List.map_cons, ih.1]
      exact ⟨rfl, List.forall_mem_cons.mpr ⟨first.2, ih.2⟩⟩

/-- The text of an identifier whose arcs fit is dotted, and any other has blanks in it. -/
theorem toText_cons {first : UInt8} {rest : Bytes} (proper : first :: rest ≠ [0]) :
    toText ⟨first :: rest⟩ =
      if (arcs 0 0 rest).any fun (_, count) => maxArcOctets < count then
        [' '].intercalate ((first :: rest).map Text.hexOfByte)
      else dotted (first.toNat / 40 :: first.toNat % 40 :: (arcs 0 0 rest).map Prod.fst) := by
  unfold toText
  split
  next none => cases none
  next alone => exact absurd alone proper
  next same =>
    cases same
    rfl

/-- An identifier has a dotted text of three numbers or more exactly if its octets write them. -/
theorem toText_eq_dotted_iff {octets : Bytes} (closed : Closed octets) (high low : Nat)
    {later : List Nat} (more : later ≠ []) :
    toText ⟨octets⟩ = dotted (high :: low :: later) ↔ WritesArcs octets high low later := by
  have period : '.' ∈ dotted (high :: low :: later) := Text.mem_intercalate_separator _ _ _ _
  have fits (written : List (Nat × Nat)) :
      ¬(written.any fun (_, count) => decide (maxArcOctets < count)) = true ↔
        ∀ arc ∈ written, arc.2 ≤ maxArcOctets := by
    simp only [List.any_eq_true, decide_eq_true_eq, not_exists, not_and, Nat.not_lt]
  constructor
  · intro same
    match octets with
    | [] =>
      rw [← same] at period
      exact absurd period List.not_mem_nil
    | first :: rest =>
      by_cases zero : first :: rest = [0]
      · rw [← same, zero] at period
        exact absurd period (by decide)
      rw [toText_cons zero] at same
      split at same
      next long =>
        -- An arc that does not fit has octets before it, so that there are two at least.
        obtain ⟨next, others, rfl⟩ : ∃ next others, rest = next :: others := by
          cases rest with
          | nil => cases long
          | cons next others => exact ⟨next, others, rfl⟩
        have blank := Text.mem_intercalate_separator ' ' (Text.hexOfByte first)
          (Text.hexOfByte next) (others.map Text.hexOfByte)
        rw [← List.map_cons, ← List.map_cons, same] at blank
        exact absurd blank (not_mem_dotted _)
      next short =>
        have numbers := (dotted_inj (List.cons_ne_nil _ _) (List.cons_ne_nil _ _)).mp same
        rw [List.cons.injEq, List.cons.injEq] at numbers
        obtain ⟨forms, whole, each⟩ :=
          (arcs_fit_iff closed.tail later).mp ⟨numbers.2.2, (fits _).mp short⟩
        exact ⟨first, forms, whole ▸ rfl, numbers.1, numbers.2.1, each⟩
  · rintro ⟨first, forms, rfl, rfl, rfl, each⟩
    obtain ⟨numbers, short⟩ := (arcs_fit_iff closed.tail later).mpr ⟨forms, rfl, each⟩
    have proper : first :: forms.flatten ≠ [0] := by
      intro zero
      have none : forms.flatten = [] := (List.cons.inj zero).2
      rw [none] at numbers
      exact more numbers.symm
    rw [toText_cons proper, if_neg ((fits _).mpr short), numbers]

/-! ### What is found in place of RSA encryption -/

/-- The text of the identifier of RSA encryption. -/
def rsaText : String := "1.2.840.113549.1.1.1"

/-- The octets have the text of RSA encryption: they write its arcs, each with any number of groups
of zero before it that fit. -/
def WritesRsa (octets : Bytes) : Prop :=
  WritesArcs octets 1 2 [840, 113549, 1, 1, 1]

theorem WritesRsa.ne_rsaOctets_iff {octets : Bytes} (written : WritesRsa octets) :
    octets ≠ rsaOctets ↔ 0x80 ∈ octets := by
  constructor
  · intro different
    by_contra absent
    obtain ⟨first, forms, rfl, high, low, each⟩ := written
    rw [List.mem_cons, not_or] at absent
    have shortest := eq_base128_of_forms (each.imp fun _ _ => And.left) absent.2
    have rest : (List.map Tag.base128 [840, 113549, 1, 1, 1]).flatten =
      [0x86, 0x48, 0x86, 0xF7, 0x0D, 0x01, 0x01, 0x01] := by cbv
    have mark : first = 0x2A := by
      apply UInt8.toNat_inj.mp
      show first.toNat = 42
      omega
    rw [shortest, rest, mark] at different
    exact different rfl
  · rintro padded rfl
    exact absurd padded (by decide)

theorem found_other_iff {octets : Bytes} (closed : Closed octets) :
    (Unsupported.other ⟨octets⟩).found = rsaText ↔ WritesRsa octets := by
  have text : rsaText = String.ofList (dotted [1, 2, 840, 113549, 1, 1, 1]) := by decide
  rw [Unsupported.found, text, String.ofList_inj, toText_eq_dotted_iff closed 1 2 (by decide)]
  rfl

/-- No description of another shape is a dotted text. -/
theorem exists_other_of_found {instead : Unsupported} (same : instead.found = rsaText) :
    ∃ oid, instead = .other oid := by
  have spelled := congrArg (fun text => text.toList.getLast?) same
  cases instead with
  | other oid => exact ⟨oid, rfl⟩
  | noAlgorithm | emptyAlgorithm => exact absurd spelled (by decide)
  | notSequence tag | notIdentifier tag =>
    simp only [Unsupported.found, String.toList_append] at spelled
    rw [List.getLast?_append_of_ne_nil _ (by decide)] at spelled
    exact absurd spelled (by decide)

/-- What is told about the AlgorithmIdentifier of a key is told about the key. -/
theorem decode_of_algorithm {raw algorithm : Bytes} (stated : AlgorithmContents raw algorithm)
    {found : Unsupported}
    (refused : ∀ place, checkIdentifier ⟨Tag.sequence, algorithm, place⟩ =
      .error (.unsupported found)) : Blob.decode raw = .error (.unsupported found) := by
  obtain ⟨contents, first, rest, outer, fields, element⟩ := stated
  obtain ⟨place, decided⟩ := checkAlgorithm_cons outer.bounded fields element
  rw [if_neg (not_not.mpr rfl), refused] at decided
  rw [decode_of_outerSequence outer, decided]

theorem checkIdentifier_other {front octets parameters : Bytes} {last : UInt8} (place : Nat)
    (element : IsElement front Tag.objectIdentifier octets) (final : octets.getLast? = some last)
    (low : last < 0x80) (different : octets ≠ rsaOctets) :
    checkIdentifier ⟨Tag.sequence, front ++ parameters, place⟩ =
      .error (.unsupported (.other ⟨octets⟩)) := by
  have closed : ofContents? octets = some ⟨octets⟩ :=
    (ofContents?_eq_some_iff _ _).mpr ⟨⟨last, final, low⟩, rfl⟩
  have unequal : ¬(⟨octets⟩ : ObjectIdentifier) = .rsaEncryption := fun same =>
    different (congrArg ObjectIdentifier.octets same)
  rw [checkIdentifier_front element rfl, if_neg (not_not.mpr rfl), closed]
  exact if_neg unequal

/-- A key is refused for another identifier exactly if its AlgorithmIdentifier begins with that. -/
theorem decode_other_iff (raw octets : Bytes) :
    Blob.decode raw = .error (.unsupported (.other ⟨octets⟩)) ↔
      (octets ≠ [] ∧ Closed octets ∧ octets ≠ rsaOctets) ∧ ∃ identifier parameters,
        IsElement identifier Tag.objectIdentifier octets ∧
          AlgorithmContents raw (identifier ++ parameters) := by
  constructor
  · intro refused
    -- A key of another shape would be refused for that shape.
    have other {found : Unsupported} (decoded : Blob.decode raw = .error (.unsupported found)) :
        found = .other ⟨octets⟩ := by
      rw [refused] at decoded
      cases decoded
      rfl
    obtain ⟨contents, fields, outer, split, shape⟩ := (decode_unsupported_iff raw).mp ⟨_, refused⟩
    cases shape with
    | noField =>
      have decoded := decode_of_outerSequence outer
      rw [checkAlgorithm_noField outer.bounded split] at decoded
      cases other decoded
    | notSequence element different =>
      obtain ⟨place, decided⟩ := checkAlgorithm_cons outer.bounded split element
      have decoded := decode_of_outerSequence outer
      rw [decided, if_pos different] at decoded
      cases other decoded
    | @otherAlgorithm first algorithm rest element inner =>
      have stated : AlgorithmContents raw algorithm :=
        ⟨contents, first, rest, outer, split, element⟩
      cases inner with
      | empty => cases other (decode_of_algorithm stated fun place => checkIdentifier_empty rfl)
      | notIdentifier front different =>
        cases other (decode_of_algorithm stated fun place =>
          (checkIdentifier_front front rfl).trans (if_pos different))
      | otherIdentifier front final low different =>
        cases other (decode_of_algorithm stated fun place =>
          checkIdentifier_other place front final low different)
        have closed : Closed octets := by
          intro last same
          rw [final] at same
          cases same
          exact low
        refine ⟨⟨?_, closed, different⟩, _, _, front, stated⟩
        rintro rfl
        cases final
  · rintro ⟨⟨some, closed, different⟩, identifier, parameters, element, stated⟩
    have final := List.getLast?_eq_some_getLast some
    exact decode_of_algorithm stated fun place =>
      checkIdentifier_other place element final (closed _ final) different

/-- A key is refused for its algorithm under the name of RSA encryption exactly if its identifier
writes the arcs of RSA encryption with a group of zero before some arc. No other key that is refused
is reported so. -/
theorem decode_reportedRsa (raw : Bytes) :
    (∀ instead, Blob.decode raw = .error (.unsupported instead) →
      (instead.found = rsaText ↔ ∃ octets, instead = .other ⟨octets⟩ ∧ WritesRsa octets)) ∧
    ((∃ instead, Blob.decode raw = .error (.unsupported instead) ∧ instead.found = rsaText) ↔
      ∃ octets identifier parameters, WritesRsa octets ∧ 0x80 ∈ octets ∧
        IsElement identifier Tag.objectIdentifier octets ∧
        AlgorithmContents raw (identifier ++ parameters)) := by
  have told (instead : Unsupported)
      (refused : Blob.decode raw = .error (.unsupported instead)) :
      instead.found = rsaText ↔ ∃ octets, instead = .other ⟨octets⟩ ∧ WritesRsa octets := by
    constructor
    · intro same
      obtain ⟨⟨octets⟩, rfl⟩ := exists_other_of_found same
      obtain ⟨⟨-, closed, -⟩, -⟩ := (decode_other_iff raw octets).mp refused
      exact ⟨octets, rfl, (found_other_iff closed).mp same⟩
    · rintro ⟨octets, rfl, written⟩
      obtain ⟨⟨-, closed, -⟩, -⟩ := (decode_other_iff raw octets).mp refused
      exact (found_other_iff closed).mpr written
  refine ⟨told, ?_⟩
  constructor
  · rintro ⟨instead, refused, same⟩
    obtain ⟨octets, rfl, written⟩ := (told instead refused).mp same
    obtain ⟨⟨-, -, different⟩, identifier, parameters, element, stated⟩ :=
      (decode_other_iff raw octets).mp refused
    exact ⟨octets, identifier, parameters, written, written.ne_rsaOctets_iff.mp different, element,
      stated⟩
  · rintro ⟨octets, identifier, parameters, written, padded, element, stated⟩
    have different := written.ne_rsaOctets_iff.mpr padded
    have refused := (decode_other_iff raw octets).mpr
      ⟨⟨written.ne_nil, written.closed (by decide), different⟩, identifier, parameters, element,
        stated⟩
    exact ⟨_, refused, (told _ refused).mpr ⟨octets, rfl, written⟩⟩

/-- A key with the identifier of RSA encryption, in which the arc 840 has a group of zero before
it. -/
def longArcKey : Bytes :=
  [0x30, 0x1D, 0x30, 0x0E, 0x06, 0x0A, 0x2A, 0x80, 0x86, 0x48, 0x86, 0xF7, 0x0D, 0x01, 0x01, 0x01,
    0x05, 0x00, 0x03, 0x0B, 0x00, 0x30, 0x08, 0x02, 0x03, 0x00, 0xC3, 0x5B, 0x02, 0x01, 0x03]

theorem decode_longArcKey :
    ∃ instead, Blob.decode longArcKey = .error (.unsupported instead) ∧
      instead.found = rsaText :=
  ⟨.other ⟨[0x2A, 0x80, 0x86, 0x48, 0x86, 0xF7, 0x0D, 0x01, 0x01, 0x01]⟩, by cbv, by decide⟩

end Key

end TrustSchema
