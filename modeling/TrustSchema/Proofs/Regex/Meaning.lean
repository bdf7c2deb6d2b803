import Mathlib.Data.List.Forall2
import TrustSchema.Proofs.Positions.Repetition
import TrustSchema.Proofs.Regex.Syntax

/-!
The meaning of expressions. The positions that a search finds are those that the meaning of the
expression leads to, and the simple form of an expression has the meaning of the expression.
-/

namespace TrustSchema.Regex

open Positions

variable {text : Text}

attribute [local simp] ends

/-- Where matches end of expressions one after another. -/
def endsInTurn (text : Text) (rs : List Regex) (s : Positions text.length) :
    Positions text.length :=
  rs.foldl (fun s r => r.ends text s) s

theorem endsInTurn_append (a b : List Regex) (s : Positions text.length) :
    endsInTurn text (a ++ b) s = endsInTurn text b (endsInTurn text a s) := by
  simp [endsInTurn]

theorem ends_ofParts (rs : List Regex) (s : Positions text.length) :
    (ofParts rs).ends text s = endsInTurn text rs s := by
  fun_induction ofParts rs generalizing s with
  | case1 => rfl
  | case2 => rfl
  | case3 r rest _ ih => rw [ends, ih]; rfl

theorem endsInTurn_parts (r : Regex) (s : Positions text.length) :
    endsInTurn text r.parts s = r.ends text s := by
  induction r generalizing s with
  | seq first second _ ih => rw [parts, ends, ← ih]; rfl
  | _ => rfl

theorem endsInTurn_partBefore (r : Regex) (later : List Regex) (s : Positions text.length) :
    endsInTurn text (partBefore r later) s = endsInTurn text later (r.ends text s) := by
  unfold partBefore
  split
  · simp [endsInTurn]
  · rfl

theorem endsInTurn_foldr_partBefore (rs : List Regex) (s : Positions text.length) :
    endsInTurn text (rs.foldr partBefore []) s = endsInTurn text rs s := by
  induction rs generalizing s with
  | nil => rfl
  | cons r rest ih => rw [List.foldr_cons, endsInTurn_partBefore, ih]; rfl

/-- A sequence in simple form matches one expression after another. -/
theorem ends_concat (rs : List Regex) (s : Positions text.length) :
    (concat rs).ends text s = endsInTurn text rs s := by
  rw [concat, ends_ofParts, endsInTurn_foldr_partBefore]
  induction rs generalizing s with
  | nil => rfl
  | cons r rest ih =>
    rw [List.flatMap_cons, endsInTurn_append, endsInTurn_parts, ih]
    rfl

/-! ### Sets -/

theorem has_ends_one (members : CharSet) (s : Positions text.length) (p : Nat) :
    ((one members).ends text s).has p =
      (decide (p < text.length + 1) && decide (0 < p) &&
        (s.has (p - 1) && (text[p - 1]?.map members.contains).getD false)) := by
  rw [ends, Positions.has_pass, Positions.has_ofBits]
  by_cases inside : p < text.length + 1
  · have before : p - 1 < text.length + 1 := by omega
    simp [inside, before, List.getD_eq_getElem?_getD]
  · simp [inside]

/-- A literal of one character matches as the set of that character does. -/
theorem ends_character (c : Char) (s : Positions text.length) :
    (literal [c]).ends text s = (one (.only c)).ends text s := by
  simp only [ends, passCharacter, List.foldl_cons, List.foldl_nil]
  congr 3
  funext d
  simp [eq_comm, BEq.beq]

theorem ends_ofSet (members : CharSet) (s : Positions text.length) :
    (ofSet members).ends text s = (one members).ends text s := by
  unfold ofSet
  split
  · rename_i c member
    have same : members.contains = (CharSet.only c).contains := by
      funext d
      rw [CharSet.contains_of_member? member, CharSet.contains_only]
    rw [ends_character]
    refine Positions.ext fun p => ?_
    simp only [has_ends_one, same]
  · rfl

/-! ### Alternatives -/

/-- Whether a match of one of some expressions can end at a position. -/
def anyEndsAt (text : Text) (rs : List Regex) (s : Positions text.length) (p : Nat) : Bool :=
  rs.any fun r => (r.ends text s).has p

theorem anyEndsAt_branches (r : Regex) (s : Positions text.length) (p : Nat) :
    anyEndsAt text r.branches s p = (r.ends text s).has p := by
  induction r with
  | alt left right _ ih =>
    rw [anyEndsAt, branches, List.any_cons, ends, Positions.has_union, ← ih]
    rfl
  | _ => simp [anyEndsAt, branches]

theorem anyEndsAt_flatMap_branches (rs : List Regex) (s : Positions text.length) (p : Nat) :
    anyEndsAt text (rs.flatMap branches) s p = anyEndsAt text rs s p := by
  induction rs with
  | nil => rfl
  | cons r rest ih =>
    have head := anyEndsAt_branches r s p
    simp only [anyEndsAt] at head ih ⊢
    rw [List.flatMap_cons, List.any_append, List.any_cons, head, ih]

theorem has_ends_ofBranches (first : Regex) (rest : List Regex) (s : Positions text.length)
    (p : Nat) :
    ((ofBranches first rest).ends text s).has p = anyEndsAt text (first :: rest) s p := by
  induction rest generalizing first with
  | nil => simp [ofBranches, anyEndsAt]
  | cons next later ih =>
    rw [ofBranches, ends, Positions.has_union, ih]
    rfl

theorem eq_literals_of_mapM {rs : List Regex} {characters : List Char}
    (each : rs.mapM character? = some characters) :
    rs = characters.map fun c => literal [c] := by
  induction rs generalizing characters with
  | nil => simp_all
  | cons r rest ih =>
    simp only [List.mapM_cons, Option.bind_eq_bind, Option.bind_eq_some_iff, Option.pure_def,
      Option.some.injEq] at each
    obtain ⟨c, single, later, rest_each, rfl⟩ := each
    rw [ih rest_each, List.map_cons, List.cons.injEq]
    unfold character? at single
    split at single
    · simp_all
    · simp at single

theorem eq_sets_of_mapM {rs : List Regex} {sets : List CharSet}
    (each : rs.mapM set? = some sets) : rs = sets.map one := by
  induction rs generalizing sets with
  | nil => simp_all
  | cons r rest ih =>
    simp only [List.mapM_cons, Option.bind_eq_bind, Option.bind_eq_some_iff, Option.pure_def,
      Option.some.injEq] at each
    obtain ⟨s, single, later, rest_each, rfl⟩ := each
    rw [ih rest_each, List.map_cons, List.cons.injEq]
    unfold set? at single
    split at single
    · simp_all
    · simp at single

theorem contains_foldl_union (sets : List CharSet) (start : CharSet) (c : Char) :
    (sets.foldl CharSet.union start).contains c =
      (start.contains c || sets.any fun s => s.contains c) := by
  induction sets generalizing start with
  | nil => simp
  | cons s rest ih => simp [ih, Bool.or_assoc]

theorem contains_ofRanges_characters (characters : List Char) (c : Char) :
    (CharSet.ofRanges (characters.map fun d => (d, d))).contains c =
      characters.any fun d => (CharSet.only d).contains c := by
  induction characters with
  | nil => simp [CharSet.ofRanges]
  | cons d rest ih =>
    simp only [CharSet.ofRanges] at ih
    simp only [CharSet.ofRanges, List.map_cons, List.foldr_cons, CharSet.contains_union, ih,
      List.any_cons]
    rfl

/-- A set that contains what some sets contain matches where one of them does. -/
theorem has_ends_union {members : CharSet} {sets : List CharSet}
    (union : ∀ c, members.contains c = sets.any fun s => s.contains c)
    (s : Positions text.length) (p : Nat) :
    ((one members).ends text s).has p = anyEndsAt text (sets.map one) s p := by
  simp only [anyEndsAt, List.any_map, Function.comp_def, has_ends_one]
  cases text[p - 1]? with
  | none => simp
  | some c =>
    simp only [Option.map_some, Option.getD_some, union]
    clear union
    induction sets with
    | nil => simp
    | cons first rest ih =>
      rw [List.any_cons, List.any_cons, ← ih, ← Bool.and_or_distrib_left,
        ← Bool.and_or_distrib_left]

theorem has_ends_unionOf? {rs : List Regex} {members : CharSet}
    (found : unionOf? rs = some members) (s : Positions text.length) (p : Nat) :
    ((one members).ends text s).has p = anyEndsAt text rs s p := by
  unfold unionOf? at found
  split at found
  · rename_i characters each
    obtain rfl := Option.some.inj found
    have union : ∀ c, (CharSet.ofRanges (characters.map fun d => (d, d))).contains c =
        (characters.map CharSet.only).any fun s => s.contains c := by
      simp [contains_ofRanges_characters, Function.comp_def]
    rw [eq_literals_of_mapM each, has_ends_union union]
    simp only [anyEndsAt, List.any_map, Function.comp_def, ends_character]
  · rename_i sets _ each
    obtain rfl := Option.some.inj found
    rw [eq_sets_of_mapM each]
    exact has_ends_union (by simp [contains_foldl_union]) s p
  · simp at found

/-! ### Shared parts -/

theorem take_sharedLength {a b : List Regex} {n : Nat} (le : n ≤ sharedLength a b) :
    a.take n = b.take n := by
  fun_induction sharedLength a b generalizing n with
  | case1 a as bs ih =>
    cases n with
    | zero => rfl
    | succ n => rw [List.take_succ_cons, List.take_succ_cons, ih (by omega)]
  | case2 | case3 =>
    obtain rfl := Nat.le_zero.mp le
    rfl

theorem foldl_min_le (parts : List Regex) (rest : List Regex) (start : Nat) :
    let n := rest.foldl (fun n r => Nat.min n (sharedLength parts r.parts)) start
    n ≤ start ∧ ∀ r ∈ rest, n ≤ sharedLength parts r.parts := by
  induction rest generalizing start with
  | nil => simp
  | cons r rest ih =>
    obtain ⟨le, each⟩ := ih (Nat.min start (sharedLength parts r.parts))
    refine ⟨Nat.le_trans le (Nat.min_le_left _ _), fun q mem => ?_⟩
    rcases List.mem_cons.mp mem with rfl | later
    · exact Nat.le_trans le (Nat.min_le_right _ _)
    · exact each q later

theorem take_sharedParts {first : Regex} {rest : List Regex} {n : Nat}
    (shared : sharedParts first rest = n) {r : Regex} (mem : r ∈ first :: rest) :
    r.parts.take n = first.parts.take n := by
  unfold sharedParts at shared
  split at shared
  · rcases List.mem_cons.mp mem with rfl | later
    · rfl
    · have le := (foldl_min_le first.parts rest first.parts.length).2 r later
      exact (take_sharedLength (shared ▸ le)).symm
  · subst shared
    rfl

theorem ends_of_dropParts (r : Regex) (n : Nat) (s : Positions text.length) :
    r.ends text s = (r.dropParts n).ends text (endsInTurn text (r.parts.take n) s) := by
  rw [dropParts, ends_concat, ← endsInTurn_append, List.take_append_drop, endsInTurn_parts]

/-- An alternation in simple form matches where one of its expressions does. -/
theorem has_ends_alternation (rs : List Regex) (s : Positions text.length) (p : Nat) :
    ((alternation rs).ends text s).has p = anyEndsAt text rs s p := by
  rw [← anyEndsAt_flatMap_branches]
  fun_induction alternation rs generalizing s with
  | case1 rs flat =>
    rw [flat, has_ends_one]
    cases text[p - 1]? <;> simp [anyEndsAt]
  | case2 rs r flat => simp [flat, anyEndsAt]
  | case3 rs first rest _ flat members found => rw [ends_ofSet, has_ends_unionOf? found, flat]
  | case4 rs first rest _ flat => rw [has_ends_ofBranches, flat]
  | case5 rs first rest _ flat _ n shared ih =>
    rw [ends_concat, endsInTurn_append]
    change ((alternation _).ends text _).has p = _
    rw [ih, anyEndsAt_flatMap_branches, flat]
    simp only [anyEndsAt, List.any_map, Function.comp_def]
    rw [Bool.eq_iff_iff, List.any_eq_true, List.any_eq_true]
    refine exists_congr fun r => and_congr_right fun mem => ?_
    rw [ends_of_dropParts r (n + 1) s, take_sharedParts shared mem]

/-! ### Conditions and literals -/

theorem has_ends_look (condition : Look) (s : Positions text.length) (p : Nat) :
    ((look condition).ends text s).has p =
      (s.has p && (condition.places none text).getD p false) := by
  rw [ends, has_inter, has_ofBits]
  cases member : s.has p with
  | false => rfl
  | true => rw [decide_eq_true (lt_of_has member), Bool.true_and]

theorem getD_places_textStart (before : Option Char) (text : Text) (p : Nat) :
    (Look.textStart.places before text).getD p false = (before.isNone && decide (p = 0)) := by
  induction text generalizing before p with
  | nil => cases p <;> simp [Look.places, Look.holds]
  | cons c rest ih =>
    cases p with
    | zero => simp [Look.places, Look.holds]
    | succ p =>
      rw [Look.places, List.getD_cons_succ, ih]
      simp

theorem getD_places_textEnd (before : Option Char) (text : Text) (p : Nat) :
    (Look.textEnd.places before text).getD p false = decide (p = text.length) := by
  induction text generalizing before p with
  | nil => cases p <;> simp [Look.places, Look.holds]
  | cons c rest ih =>
    cases p with
    | zero => simp [Look.places, Look.holds]
    | succ p =>
      rw [Look.places, List.getD_cons_succ, ih]
      simp

theorem has_passCharacter_iff (s : Positions text.length) (c : Char) (q : Nat) :
    (passCharacter text s c).has q = true ↔
      ∃ p, s.has p = true ∧ q = p + 1 ∧ text[p]? = some c := by
  simp only [passCharacter, has_pass_map_iff, beq_iff_eq, exists_eq_right]

theorem cons_prefix_drop_iff (c : Char) (rest : Text) (p : Nat) :
    c :: rest <+: text.drop p ↔ text[p]? = some c ∧ rest <+: text.drop (p + 1) := by
  rw [List.cons_prefix_iff, ← List.head?_drop, ← List.tail_drop]
  cases text.drop p with
  | nil => simp
  | cons d after => simp [eq_comm, and_assoc]

theorem has_ends_literal_iff (characters : Text) (s : Positions text.length) (q : Nat) :
    ((literal characters).ends text s).has q = true ↔
      ∃ p, s.has p = true ∧ characters <+: text.drop p ∧ q = p + characters.length := by
  induction characters generalizing s with
  | nil => simp [ends]
  | cons c rest ih =>
    change ((literal rest).ends text (passCharacter text s c)).has q = true ↔ _
    simp only [ih, has_passCharacter_iff, cons_prefix_drop_iff, List.length_cons]
    constructor
    · rintro ⟨_, ⟨p, member, rfl, found⟩, start, rfl⟩
      exact ⟨p, member, ⟨found, start⟩, by omega⟩
    · rintro ⟨p, member, ⟨found, start⟩, rfl⟩
      exact ⟨p + 1, ⟨p, member, rfl, found⟩, start, by omega⟩

/-! ### Meanings -/

/-- One character of a set. -/
def CharSet.meaning (members : CharSet) : Meaning :=
  fun text p q => q = p + 1 ∧ ∃ c, text[p]? = some c ∧ members.contains c = true

/-- The empty match where a condition holds. -/
def Look.meaning (condition : Look) : Meaning :=
  fun text p q => q = p ∧ (condition.places none text).getD p false = true

/-- The search for an expression goes from position to position as a meaning says. -/
def Denotes (r : Regex) (m : Meaning) : Prop :=
  ∀ text, Along (r.ends text) (m text)

theorem Denotes.search_iff {r : Regex} {m : Meaning} (denotes : Denotes r m) (text : Text) :
    r.search text = true ↔ m.Occurs text := by
  rw [search, Bool.not_eq_true', isEmpty_eq_false_iff]
  simp only [denotes text all, has_all, decide_eq_true_eq, Meaning.Occurs, Nat.lt_succ_iff]
  constructor
  · rintro ⟨q, p, within, led⟩
    exact ⟨p, within, q, led⟩
  · rintro ⟨p, within, q, led⟩
    exact ⟨q, p, within, led⟩

theorem denotes_empty : Denotes empty .nothing := by
  intro text s q
  simp [ends, Meaning.nothing]

theorem denotes_literal (characters : Text) :
    Denotes (literal characters)
      (fun text p q => characters <+: text.drop p ∧ q = p + characters.length) :=
  fun _ => has_ends_literal_iff characters

theorem denotes_one (members : CharSet) : Denotes (one members) members.meaning :=
  fun text => has_pass_map_iff text members.contains

theorem denotes_ofSet (members : CharSet) : Denotes (ofSet members) members.meaning := by
  intro text s q
  rw [ends_ofSet]
  exact denotes_one members text s q

theorem denotes_look (condition : Look) : Denotes (look condition) condition.meaning := by
  intro text s q
  rw [has_ends_look, Bool.and_eq_true]
  constructor
  · rintro ⟨member, holds⟩
    exact ⟨q, member, rfl, holds⟩
  · rintro ⟨_, member, rfl, holds⟩
    exact ⟨member, holds⟩

theorem meaning_textStart : Look.textStart.meaning = .textStart := by
  funext text p q
  simp only [Look.meaning, Meaning.textStart, getD_places_textStart, Option.isNone_none,
    Bool.true_and, decide_eq_true_eq, eq_iff_iff]
  omega

theorem meaning_textEnd : Look.textEnd.meaning = .textEnd := by
  funext text p q
  simp only [Look.meaning, Meaning.textEnd, getD_places_textEnd, decide_eq_true_eq, eq_iff_iff]
  omega

theorem denotes_group {r : Regex} {m : Meaning} (body : Denotes r m) (number : Nat) :
    Denotes (group number r) m :=
  body

theorem along_followedBy {first second : Positions text.length → Positions text.length}
    {m n : Meaning} (before : Along first (m text)) (after : Along second (n text)) :
    Along (second ∘ first) (m.followedBy n text) := by
  intro s q
  rw [Function.comp_apply, after]
  constructor
  · rintro ⟨k, middle, last⟩
    obtain ⟨p, member, start⟩ := (before s k).mp middle
    exact ⟨p, member, k, start, last⟩
  · rintro ⟨p, member, k, start, last⟩
    exact ⟨k, (before s k).mpr ⟨p, member, start⟩, last⟩

theorem denotes_seq {first second : Regex} {m n : Meaning} (before : Denotes first m)
    (after : Denotes second n) : Denotes (seq first second) (m.followedBy n) :=
  fun text => along_followedBy (before text) (after text)

theorem denotes_concat {rs : List Regex} {ms : List Meaning} (each : List.Forall₂ Denotes rs ms) :
    Denotes (concat rs) (.inTurn ms) := by
  intro text
  have turns : Along (endsInTurn text rs) (Meaning.inTurn ms text) := by
    induction each with
    | nil => exact denotes_empty text
    | cons first _ ih => exact along_followedBy (first text) ih
  intro s q
  rw [ends_concat]
  exact turns s q

theorem has_anyEndsAt_iff {rs : List Regex} {ms : List Meaning}
    (each : List.Forall₂ Denotes rs ms) (s : Positions text.length) (q : Nat) :
    anyEndsAt text rs s q = true ↔ ∃ p, s.has p = true ∧ Meaning.anyOf ms text p q := by
  induction each with
  | nil => simp [anyEndsAt, Meaning.anyOf]
  | cons first _ ih =>
    rw [anyEndsAt, List.any_cons, Bool.or_eq_true, first text s q]
    refine (or_congr_right ih).trans ?_
    simp only [Meaning.anyOf, List.mem_cons, or_and_right, exists_or, exists_eq_left, and_or_left]

theorem denotes_alternation {rs : List Regex} {ms : List Meaning}
    (each : List.Forall₂ Denotes rs ms) : Denotes (alternation rs) (.anyOf ms) := by
  intro text s q
  rw [has_ends_alternation]
  exact has_anyEndsAt_iff each s q

theorem denotes_alt {left right : Regex} {m n : Meaning} (one : Denotes left m)
    (other : Denotes right n) : Denotes (alt left right) (.anyOf [m, n]) := by
  intro text s q
  rw [ends, has_union, ← has_anyEndsAt_iff (.cons one (.cons other .nil))]
  simp [anyEndsAt]

/-! ### Repetitions -/

theorem along_times {step : Positions text.length → Positions text.length} {m : Meaning}
    (along : Along step (m text)) (count : Nat) : Along step^[count] (m.times count text) := by
  induction count with
  | zero => exact denotes_empty text
  | succ count ih =>
    rw [Function.iterate_succ']
    exact along_followedBy ih along

theorem along_afterRepeats {step : Positions text.length → Positions text.length} {m : Meaning}
    (along : Along step (m text)) (b : Bounds) :
    Along (afterRepeats step b) (m.repeated b text) := by
  intro s q
  rw [has_afterRepeats along]
  simp only [along_times along _ s q]
  constructor
  · rintro ⟨count, allowed, p, member, led⟩
    exact ⟨p, member, count, allowed, led⟩
  · rintro ⟨p, member, count, allowed, led⟩
    exact ⟨count, allowed, p, member, led⟩

theorem denotes_repeated {body : Regex} {m : Meaning} (each : Denotes body m) (b : Bounds)
    (greedy : Bool) : Denotes (repeated body b greedy) (m.repeated b) :=
  fun text => along_afterRepeats (each text) b

/-- Every expression has a meaning. -/
theorem exists_denotes (r : Regex) : ∃ m, Denotes r m := by
  induction r with
  | empty => exact ⟨_, denotes_empty⟩
  | literal characters => exact ⟨_, denotes_literal characters⟩
  | one members => exact ⟨_, denotes_one members⟩
  | look condition => exact ⟨_, denotes_look condition⟩
  | seq first second one other =>
    obtain ⟨_, one⟩ := one
    obtain ⟨_, other⟩ := other
    exact ⟨_, denotes_seq one other⟩
  | alt left right one other =>
    obtain ⟨_, one⟩ := one
    obtain ⟨_, other⟩ := other
    exact ⟨_, denotes_alt one other⟩
  | repeated body b greedy ih =>
    obtain ⟨_, each⟩ := ih
    exact ⟨_, denotes_repeated each b greedy⟩
  | group number body ih => exact ih

theorem eq_of_times {m : Meaning} (still : ∀ p q, m text p q → p = q) {count p q : Nat}
    (led : m.times count text p q) : p = q := by
  induction count generalizing q with
  | zero => exact led
  | succ count ih =>
    obtain ⟨k, before, last⟩ := led
    exact (ih before).trans (still k q last)

/-- An expression that can only match the empty text leads nowhere else. -/
theorem exists_still {r : Regex} (only : r.matchesOnlyEmpty = true) :
    ∃ m, Denotes r m ∧ ∀ text p q, m text p q → p = q := by
  induction r with
  | empty => exact ⟨_, denotes_empty, fun _ _ _ same => same⟩
  | literal characters =>
    obtain rfl := List.isEmpty_iff.mp only
    refine ⟨_, denotes_literal [], ?_⟩
    rintro _ p _ ⟨-, rfl⟩
    rfl
  | one members => cases only
  | look condition =>
    refine ⟨_, denotes_look condition, ?_⟩
    rintro _ p _ ⟨rfl, -⟩
    rfl
  | seq first second one other =>
    obtain ⟨onlyFirst, onlySecond⟩ := Bool.and_eq_true_iff.mp only
    obtain ⟨m, before, still⟩ := one onlyFirst
    obtain ⟨n, after, still'⟩ := other onlySecond
    refine ⟨_, denotes_seq before after, ?_⟩
    rintro text p q ⟨k, start, last⟩
    exact (still text p k start).trans (still' text k q last)
  | alt left right one other =>
    obtain ⟨onlyLeft, onlyRight⟩ := Bool.and_eq_true_iff.mp only
    obtain ⟨m, before, still⟩ := one onlyLeft
    obtain ⟨n, after, still'⟩ := other onlyRight
    refine ⟨_, denotes_alt before after, ?_⟩
    rintro text p q ⟨k, member, led⟩
    rcases List.mem_pair.mp member with rfl | rfl
    · exact still text p q led
    · exact still' text p q led
  | repeated body b greedy ih =>
    rcases Bool.or_eq_true_iff.mp only with empty | none
    · obtain ⟨m, each, still⟩ := ih empty
      refine ⟨_, denotes_repeated each b greedy, ?_⟩
      rintro text p q ⟨count, -, led⟩
      exact eq_of_times (still text) led
    · obtain ⟨m, each⟩ := exists_denotes body
      refine ⟨_, denotes_repeated each b greedy, ?_⟩
      rintro text p q ⟨count, allowed, led⟩
      obtain rfl := Nat.le_zero.mp (allowed.2 0 (beq_iff_eq.mp none))
      exact led
  | group number body ih => exact ih only

/-- Repeating an empty match once is enough. -/
theorem afterRepeats_atMostOnce {step : Positions text.length → Positions text.length}
    {leads : Nat → Nat → Prop} (along : Along step leads) (still : ∀ p q, leads p q → p = q)
    (b : Bounds) (s : Positions text.length) :
    afterRepeats step b.atMostOnce s = afterRepeats step b s := by
  have again : step (step s) = step s := by
    refine Positions.ext fun q => Bool.eq_iff_iff.mpr ?_
    rw [along]
    constructor
    · rintro ⟨p, member, led⟩
      exact still p q led ▸ member
    · intro member
      obtain ⟨p, -, led⟩ := (along s q).mp member
      obtain rfl := still p q led
      exact ⟨p, member, led⟩
  have once (count : Nat) : step^[count + 1] s = step s := Function.iterate_fixed again count
  refine Positions.ext fun q => Bool.eq_iff_iff.mpr ?_
  rw [has_afterRepeats along, has_afterRepeats along]
  constructor
  · rintro ⟨count, ⟨least, greatest⟩, arrives⟩
    change min b.min 1 ≤ count at least
    have most : count ≤ min (b.max.getD 1) 1 := greatest _ rfl
    cases count with
    | zero => exact ⟨0, ⟨by omega, fun _ _ => Nat.zero_le _⟩, arrives⟩
    | succ count =>
      refine ⟨b.min - 1 + 1, ⟨by omega, fun bound bounded => ?_⟩, ?_⟩
      · have within := b.min_le_max bound bounded
        rw [Option.mem_def.mp bounded, Option.getD_some] at most
        omega
      · rw [once] at arrives ⊢
        exact arrives
  · rintro ⟨count, ⟨least, greatest⟩, arrives⟩
    cases count with
    | zero =>
      refine ⟨0, ⟨?_, fun _ _ => Nat.zero_le _⟩, arrives⟩
      change min b.min 1 ≤ 0
      omega
    | succ count =>
      refine ⟨1, ⟨Nat.min_le_right _ _, ?_⟩, ?_⟩
      · rintro _ ⟨⟩
        change 1 ≤ min (b.max.getD 1) 1
        cases bound : b.max with
        | none => decide
        | some most =>
          have := greatest most bound
          rw [Option.getD_some]
          omega
      · rw [once] at arrives
        exact arrives

/-- A repetition in simple form matches as many times as the bounds allow. -/
theorem ends_repetition (body : Regex) (b : Bounds) (greedy : Bool)
    (s : Positions text.length) :
    (repetition body b greedy).ends text s = afterRepeats (body.ends text) b s := by
  obtain ⟨m, each⟩ := exists_denotes body
  unfold repetition
  have once : afterRepeats (body.ends text) (if body.matchesOnlyEmpty then b.atMostOnce else b) s =
      afterRepeats (body.ends text) b s := by
    split
    next only =>
      obtain ⟨_, each', still⟩ := exists_still only
      exact afterRepeats_atMostOnce (each' text) (still text) b s
    next => rfl
  rw [← once]
  generalize (if body.matchesOnlyEmpty then b.atMostOnce else b) = bounds
  dsimp only
  split
  next none =>
    refine Positions.ext fun q => Bool.eq_iff_iff.mpr ?_
    rw [has_afterRepeats (each text)]
    constructor
    · intro member
      refine ⟨0, ⟨?_, fun _ _ => Nat.zero_le _⟩, member⟩
      exact bounds.min_le_max 0 none
    · rintro ⟨count, allowed, arrives⟩
      obtain rfl := Nat.le_zero.mp (allowed.2 0 none)
      exact arrives
  next =>
    split
    next single =>
      refine Positions.ext fun q => Bool.eq_iff_iff.mpr ?_
      rw [has_afterRepeats (each text)]
      constructor
      · intro member
        refine ⟨1, ⟨Nat.le_of_eq single.1, fun most bounded => ?_⟩, member⟩
        cases single.2.symm.trans bounded
        exact Nat.le_refl 1
      · rintro ⟨count, ⟨least, greatest⟩, arrives⟩
        have most := greatest 1 single.2
        obtain rfl : count = 1 := by omega
        exact arrives
    next => rfl

theorem denotes_repetition {body : Regex} {m : Meaning} (each : Denotes body m) (b : Bounds)
    (greedy : Bool) : Denotes (repetition body b greedy) (m.repeated b) := by
  intro text s q
  rw [ends_repetition]
  exact along_afterRepeats (each text) b s q

end TrustSchema.Regex
