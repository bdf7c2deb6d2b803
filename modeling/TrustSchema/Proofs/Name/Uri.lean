import TrustSchema.Name.Uri
import TrustSchema.Proofs.Text.Blank
import TrustSchema.Proofs.Text.Items
import TrustSchema.Proofs.Text.Percent

/-!
The URI form of a name is read back as that name, and it is a word that no reader of blanks, slashes
or escapes cuts in another place.
-/

namespace TrustSchema.Text

theorem splitOn_separator {separator : Char} (rest : Text) :
    List.splitOn separator (separator :: rest) = [] :: List.splitOn separator rest := by
  rw [List.splitOn, List.splitOnP_cons_eq_if_modifyHead, if_pos (beq_self_eq_true separator),
    List.splitOn]

theorem splitOn_append {separator : Char} {start rest first : Text} {more : List Text}
    (absent : separator ∉ start) (after : List.splitOn separator rest = first :: more) :
    List.splitOn separator (start ++ rest) = (start ++ first) :: more := by
  induction start with
  | nil => exact after
  | cons c start ih =>
    rw [List.mem_cons, not_or] at absent
    have different : ¬(c == separator) = true := fun same => absent.1 (beq_iff_eq.mp same).symm
    have later := ih absent.2
    rw [List.splitOn] at later ⊢
    rw [List.cons_append, List.splitOnP_cons_eq_if_modifyHead, if_neg different, later]
    rfl

theorem splitOn_flatMap {separator : Char} {pieces : List Text}
    (absent : ∀ piece ∈ pieces, separator ∉ piece) :
    List.splitOn separator (pieces.flatMap (separator :: ·)) = [] :: pieces := by
  induction pieces with
  | nil => rfl
  | cons piece pieces ih =>
    have later := ih fun other member => absent other (List.mem_cons_of_mem _ member)
    have here := splitOn_append (absent piece List.mem_cons_self) later
    rw [List.append_nil] at here
    rw [List.flatMap_cons, List.cons_append, splitOn_separator, here]

/-- The parts of a text between the separators in it, of which there is one more than separators. -/
def Parts (separator : Char) (text : Text) (parts : List Text) : Prop :=
  parts ≠ [] ∧ (∀ part ∈ parts, separator ∉ part) ∧ [separator].intercalate parts = text

theorem not_mem_of_mem_splitOn {separator : Char} {text part : Text}
    (member : part ∈ List.splitOn separator text) : separator ∉ part := by
  induction text generalizing part with
  | nil =>
    rw [List.splitOn_nil, List.mem_singleton] at member
    rw [member]
    exact List.not_mem_nil
  | cons c text ih =>
    obtain ⟨first, parts, split⟩ := List.exists_cons_of_ne_nil (List.splitOn_ne_nil separator text)
    rw [split] at ih
    -- A separator begins a new part, and any other character belongs to the first one.
    by_cases here : c = separator
    · rw [here, splitOn_separator, split, List.mem_cons] at member
      rcases member with rfl | later
      · exact List.not_mem_nil
      · exact ih later
    · have different : separator ∉ [c] := by
        rw [List.mem_singleton]
        exact Ne.symm here
      have longer := splitOn_append different split
      rw [List.singleton_append, List.singleton_append] at longer
      rw [longer, List.mem_cons] at member
      rcases member with rfl | later
      · rw [List.mem_cons, not_or]
        exact ⟨Ne.symm here, ih List.mem_cons_self⟩
      · exact ih (List.mem_cons_of_mem _ later)

theorem parts_iff (separator : Char) (text : Text) (parts : List Text) :
    Parts separator text parts ↔ parts = List.splitOn separator text := by
  constructor
  · rintro ⟨some, absent, rfl⟩
    exact (List.splitOn_intercalate separator absent some).symm
  · rintro rfl
    exact ⟨List.splitOn_ne_nil separator text, fun part => not_mem_of_mem_splitOn,
      List.intercalate_splitOn separator⟩

theorem isPrefixOf?_eq_some_iff (start text rest : Text) :
    List.isPrefixOf? start text = some rest ↔ text = start ++ rest := by
  induction start generalizing text with
  | nil => exact Option.some_inj
  | cons s start ih =>
    cases text with
    | nil => simp [List.isPrefixOf?]
    | cons c text =>
      rw [List.isPrefixOf?, List.cons_append, List.cons.injEq]
      by_cases same : s = c
      · rw [if_pos (beq_iff_eq.mpr same), ih, and_iff_right same.symm]
      · rw [if_neg (mt beq_iff_eq.mp same)]
        simp [Ne.symm same]

theorem isPrefixOf?_eq_none_iff (start text : Text) :
    List.isPrefixOf? start text = none ↔ ¬start <+: text := by
  rw [Option.eq_none_iff_forall_ne_some]
  simp only [ne_eq, isPrefixOf?_eq_some_iff, List.IsPrefix, not_exists]
  exact forall_congr' fun rest => not_congr eq_comm

end TrustSchema.Text

namespace TrustSchema

open Text.Percent

namespace Component

/-- The octets of the URI form: three periods before the component if it is made of periods. -/
def marked (c : Component) : Bytes :=
  (if allPeriods c.bytes then [period, period, period] else []) ++ c.bytes

theorem toUri_eq_encode (c : Component) : c.toUri = encode c.marked := by
  rw [toUri, marked]
  split <;> rfl

theorem isPrinted_of_mem_toUri {c : Component} {character : Char} (member : character ∈ c.toUri) :
    isPrinted character = true := by
  rw [toUri_eq_encode] at member
  exact isPrinted_of_mem_encode member

theorem toUri_ne_nil (c : Component) : c.toUri ≠ [] := by
  intro empty
  have octets := decode?_encode c.marked
  rw [← toUri_eq_encode, empty] at octets
  have none : c.marked = [] := (Option.some.inj octets).symm
  rw [marked, List.append_eq_nil_iff] at none
  obtain ⟨unmarked, bytes⟩ := none
  rw [bytes] at unmarked
  cases unmarked

theorem trim_toUri (c : Component) : Text.trim c.toUri = c.toUri :=
  Text.trim_of_solid fun _ member => not_isBlank_of_isPrinted (isPrinted_of_mem_toUri member)

theorem ofUri?_toUri (c : Component) : ofUri? c.toUri = .ok c := by
  have octets := decode?_encode c.marked
  rw [← toUri_eq_encode] at octets
  rw [ofUri?, trim_toUri, octets]
  by_cases periods : allPeriods c.bytes = true
  · have marks : c.marked = [period, period, period] ++ c.bytes := by rw [marked, if_pos periods]
    have all : allPeriods c.marked = true := by
      rw [marks, allPeriods, List.all_append, Bool.and_eq_true]
      exact ⟨rfl, periods⟩
    have long : ¬c.marked.length < 3 := by
      rw [marks, List.length_append]
      exact Nat.not_lt_of_le (Nat.le_add_right 3 _)
    -- The periods that are dropped are those that were put before the component.
    simp only [all, if_true, if_neg long]
    rw [marks]
    rfl
  · have plain : c.marked = c.bytes := by rw [marked, if_neg periods, List.nil_append]
    simp only [plain, periods]
    rfl

theorem toUri_injective : Function.Injective toUri := by
  intro a b same
  have read := ofUri?_toUri a
  rw [same, ofUri?_toUri] at read
  exact (Except.ok.inj read).symm

end Component

namespace Name

theorem toUri_eq_flatMap {n : Name} (nonempty : n.components ≠ []) :
    n.toUri = (n.components.map Component.toUri).flatMap ('/' :: ·) := by
  rw [toUri, if_neg (by rwa [List.isEmpty_iff]), List.flatMap_map]

theorem mem_toUri {n : Name} {character : Char} (member : character ∈ n.toUri) :
    character = '/' ∨ isPrinted character = true := by
  by_cases empty : n.components = []
  · rw [toUri, empty] at member
    exact .inl (List.mem_singleton.mp member)
  · rw [toUri, if_neg (by rwa [List.isEmpty_iff])] at member
    obtain ⟨c, -, written⟩ := List.mem_flatMap.mp member
    rcases List.mem_cons.mp written with same | inside
    · exact .inl same
    · exact .inr (Component.isPrinted_of_mem_toUri inside)

theorem not_isBlank_of_mem_toUri {n : Name} {character : Char} (member : character ∈ n.toUri) :
    Text.isBlank character = false := by
  rcases mem_toUri member with rfl | printed
  · decide
  · exact not_isBlank_of_isPrinted printed

theorem exists_toUri_eq_cons (n : Name) : ∃ rest, n.toUri = '/' :: rest := by
  rw [toUri]
  cases n.components with
  | nil => exact ⟨[], rfl⟩
  | cons c components => exact ⟨_, rfl⟩

theorem segments_toUri (n : Name) : segments n.toUri = n.components.map Component.toUri := by
  by_cases empty : n.components = []
  · rw [toUri, empty]
    rfl
  · have absent : ∀ piece ∈ n.components.map Component.toUri, '/' ∉ piece := by
      intro piece member slash
      obtain ⟨c, -, rfl⟩ := List.mem_map.mp member
      exact ne_of_isPrinted (Component.isPrinted_of_mem_toUri slash) (by decide) rfl
    rw [segments, toUri_eq_flatMap empty, Text.splitOn_flatMap absent,
      List.filter_cons_of_neg (by decide), List.filter_eq_self]
    -- The piece before the first slash is blank, and no other one is.
    intro piece member
    obtain ⟨c, -, rfl⟩ := List.mem_map.mp member
    rw [Component.trim_toUri, Bool.not_eq_true', List.isEmpty_eq_false_iff]
    exact c.toUri_ne_nil

theorem mapM_ofUri?_map_toUri (components : List Component) :
    (components.map Component.toUri).mapM Component.ofUri? = .ok components := by
  have each := Text.mapM_map_ok Component.ofUri? Component.ofUri?_toUri components
  rwa [List.map_id'] at each

theorem ofUri?_toUri (n : Name) : ofUri? n.toUri = .ok n := by
  -- A text that begins with a slash has no scheme.
  have path : uriPath n.toUri = n.toUri := by
    obtain ⟨rest, slash⟩ := exists_toUri_eq_cons n
    rw [slash]
    rfl
  rw [ofUri?, Text.trim_of_solid fun _ => not_isBlank_of_mem_toUri, path, segments_toUri,
    mapM_ofUri?_map_toUri]
  rfl

end Name

end TrustSchema
