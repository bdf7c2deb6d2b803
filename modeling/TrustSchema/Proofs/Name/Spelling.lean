import TrustSchema.Proofs.Name.Uri

/-!
The URIs of a name. White space around it, a scheme, an authority, repeated slashes and slashes at
the end change nothing: all these texts stand for the name of the URI form in them, and the URI form
is the one that reading and writing again leaves alone.
-/

namespace TrustSchema.Name

open Text.Percent

/-- A text with slashes repeated any number of times where they stand, and slashes added at its
end. -/
inductive Slashed : Text → Text → Prop
  | done (added : Nat) : Slashed [] (List.replicate added '/')
  | slash {text longer : Text} (again : Nat) :
      Slashed text longer → Slashed ('/' :: text) (List.replicate (again + 1) '/' ++ longer)
  | other {c : Char} {text longer : Text} :
      c ≠ '/' → Slashed text longer → Slashed (c :: text) (c :: longer)

/-- The text that writing gives for what a URI stands for. -/
def normalForm? (uri : Text) : Except NameError Text :=
  (ofUri? uri).map toUri

namespace Slashed

theorem refl (text : Text) : Slashed text text := by
  induction text with
  | nil => exact .done 0
  | cons c text ih =>
    by_cases slash : c = '/'
    · subst slash
      exact .slash 0 ih
    · exact .other slash ih

theorem mem {text longer : Text} (slashed : Slashed text longer) {c : Char} (member : c ∈ longer) :
    c = '/' ∨ c ∈ text := by
  induction slashed with
  | done added => exact .inl (List.eq_of_mem_replicate member)
  | slash again _ ih =>
    rcases List.mem_append.mp member with here | later
    · exact .inl (List.eq_of_mem_replicate here)
    · exact (ih later).imp_right (List.mem_cons_of_mem _)
  | other _ _ ih =>
    rcases List.mem_cons.mp member with rfl | later
    · exact .inr List.mem_cons_self
    · exact (ih later).imp_right (List.mem_cons_of_mem _)

theorem exists_eq_cons {text longer : Text} (slashed : Slashed ('/' :: text) longer) :
    ∃ rest, longer = '/' :: rest := by
  cases slashed with
  | slash again _ => exact ⟨_, rfl⟩
  | other different _ => exact absurd rfl different

end Slashed

/-! ### Segments -/

/-- The pieces that are segments. -/
private def solid (pieces : List Text) : List Text :=
  pieces.filter fun segment => !(Text.trim segment).isEmpty

private theorem solid_replicate_append (count : Nat) (pieces : List Text) :
    solid (List.replicate count [] ++ pieces) = solid pieces := by
  induction count with
  | zero => rfl
  | succ count ih => exact ih

private theorem solid_cons_congr {pieces pieces' : List Text} (first : Text)
    (same : solid pieces = solid pieces') : solid (first :: pieces) = solid (first :: pieces') := by
  simp only [solid] at same ⊢
  rw [List.filter_cons, List.filter_cons, same]

theorem splitOn_replicate_append (count : Nat) (rest : Text) :
    List.splitOn '/' (List.replicate count '/' ++ rest) =
      List.replicate count [] ++ List.splitOn '/' rest := by
  induction count with
  | zero => rfl
  | succ count ih =>
    rw [List.replicate_succ, List.cons_append, Text.splitOn_separator, ih, List.replicate_succ,
      List.cons_append]

/-- Slashes more cut off empty pieces only. The first piece grows with what stands before it, so
that it has to be the same one. -/
private theorem splitOn_of_slashed {text longer : Text} (slashed : Slashed text longer) :
    ∃ first pieces pieces', List.splitOn '/' text = first :: pieces ∧
      List.splitOn '/' longer = first :: pieces' ∧ solid pieces = solid pieces' := by
  induction slashed with
  | done added =>
    refine ⟨[], [], List.replicate added [], rfl, ?_, ?_⟩
    · rw [← List.append_nil (List.replicate added '/'), splitOn_replicate_append,
        ← List.replicate_succ, List.replicate_succ']
      rfl
    · rw [← List.append_nil (List.replicate added []), solid_replicate_append]
  | slash again _ ih =>
    obtain ⟨first, pieces, pieces', split, split', same⟩ := ih
    refine ⟨[], first :: pieces, List.replicate again [] ++ first :: pieces', ?_, ?_, ?_⟩
    · rw [Text.splitOn_separator, split]
    · rw [splitOn_replicate_append, split', List.replicate_succ, List.cons_append]
    · rw [solid_replicate_append]
      exact solid_cons_congr first same
  | @other c text longer different _ ih =>
    obtain ⟨first, pieces, pieces', split, split', same⟩ := ih
    have absent : '/' ∉ [c] := by
      rw [List.mem_singleton]
      exact Ne.symm different
    exact ⟨c :: first, pieces, pieces', Text.splitOn_append absent split,
      Text.splitOn_append absent split', same⟩

theorem segments_of_slashed {text longer : Text} (slashed : Slashed text longer) :
    segments longer = segments text := by
  obtain ⟨first, pieces, pieces', split, split', same⟩ := splitOn_of_slashed slashed
  rw [segments, segments, split, split']
  exact solid_cons_congr first same.symm

/-! ### Spellings of a name -/

/-- After the scheme two slashes would begin an authority. -/
theorem uriPath_scheme {path : Text} (single : ¬['/', '/'] <+: path) :
    uriPath (['n', 'd', 'n', ':'] ++ path) = path := by
  rw [uriPath, (Text.isPrefixOf?_eq_some_iff _ _ _).mpr rfl]
  simp only [(Text.isPrefixOf?_eq_none_iff _ _).mpr single]

section

variable {n : Name} {path : Text} (slashed : Slashed n.toUri path)
include slashed

theorem exists_path_eq_cons : ∃ rest, path = '/' :: rest := by
  obtain ⟨rest, slash⟩ := exists_toUri_eq_cons n
  rw [slash] at slashed
  exact slashed.exists_eq_cons

theorem not_isBlank_of_mem_path {c : Char} (member : c ∈ path) : Text.isBlank c = false := by
  rcases slashed.mem member with rfl | inside
  · decide
  · exact not_isBlank_of_mem_toUri inside

/-- What is put before a path may be anything that begins with no blank and leaves the path. -/
theorem ofUri?_of_uriPath (start : Text) {before after : Text} (left : Text.Blank before)
    (right : Text.Blank after) (first : ∀ c ∈ start.head?, Text.isBlank c = false)
    (cut : uriPath (start ++ path) = path) :
    ofUri? (before ++ (start ++ path) ++ after) = .ok n := by
  have trimmed : Text.trim (before ++ (start ++ path) ++ after) = start ++ path := by
    have nonempty : path ≠ [] := by
      obtain ⟨rest, rfl⟩ := exists_path_eq_cons slashed
      exact List.cons_ne_nil _ _
    apply Text.trim_of_solid_ends left right
    · intro c member
      rw [List.head?_append] at member
      cases front : start.head? with
      | none =>
        rw [front] at member
        exact not_isBlank_of_mem_path slashed (List.mem_of_mem_head? member)
      | some d =>
        rw [front] at member
        exact first c (front ▸ member)
    · intro c member
      rw [List.getLast?_append, List.getLast?_eq_some_getLast nonempty] at member
      obtain rfl := Option.some.inj member
      exact not_isBlank_of_mem_path slashed (List.getLast_mem nonempty)
  rw [ofUri?, trimmed, cut, segments_of_slashed slashed, segments_toUri,
    mapM_ofUri?_map_toUri]
  rfl

theorem uriPath_path : uriPath path = path := by
  obtain ⟨rest, rfl⟩ := exists_path_eq_cons slashed
  rfl

theorem uriPath_authority {authority : Text} (whole : '/' ∉ authority) :
    uriPath (['n', 'd', 'n', ':', '/', '/'] ++ authority ++ path) = path := by
  obtain ⟨rest, rfl⟩ := exists_path_eq_cons slashed
  have outside : ∀ c ∈ authority, decide (c ≠ '/') = true := by
    intro c member
    rw [decide_eq_true_eq]
    rintro rfl
    exact whole member
  change (authority ++ '/' :: rest).dropWhile (· ≠ '/') = _
  rw [List.dropWhile_append_of_pos outside]
  rfl

end

theorem toUri_injective : Function.Injective toUri := by
  intro a b same
  have read := ofUri?_toUri a
  rw [same, ofUri?_toUri] at read
  exact (Except.ok.inj read).symm

theorem normalForm?_eq_ok_iff (uri text : Text) :
    normalForm? uri = .ok text ↔ ∃ n, ofUri? uri = .ok n ∧ n.toUri = text := by
  rw [normalForm?]
  cases ofUri? uri with
  | error e => simp [Except.map]
  | ok n => simp [Except.map]

/-- The URI form begins with a single slash. -/
theorem not_two_slashes_prefix_toUri (n : Name) : ¬['/', '/'] <+: n.toUri := by
  rintro ⟨rest, twice⟩
  cases components : n.components with
  | nil =>
    rw [toUri, components] at twice
    cases twice
  | cons c others =>
    rw [toUri, components] at twice
    have second : '/' :: rest = c.toUri ++ others.flatMap fun c => '/' :: c.toUri :=
      (List.cons.inj twice).2
    cases written : c.toUri with
    | nil => exact c.toUri_ne_nil written
    | cons d more =>
      rw [written] at second
      obtain rfl : '/' = d := (List.cons.inj second).1
      have member : '/' ∈ c.toUri := written ▸ List.mem_cons_self
      exact ne_of_isPrinted (Component.isPrinted_of_mem_toUri member) (by decide) rfl

/-- A name is read from its URI form, whether slashes are repeated in it or added to it, a scheme
and an authority stand before it, or white space is around it. Nothing but the name decides on the
URI form, which is the normal form of all the URIs that stand for it. -/
theorem ofUri?_spellings :
    (∀ (n : Name) (path before after : Text), Slashed n.toUri path → Text.Blank before →
      Text.Blank after →
        ofUri? (before ++ path ++ after) = .ok n ∧
        (¬['/', '/'] <+: path →
          ofUri? (before ++ (['n', 'd', 'n', ':'] ++ path) ++ after) = .ok n) ∧
        (∀ authority, '/' ∉ authority →
          ofUri? (before ++ (['n', 'd', 'n', ':', '/', '/'] ++ authority ++ path) ++ after) =
            .ok n)) ∧
    (∀ n : Name, Slashed n.toUri n.toUri ∧ ¬['/', '/'] <+: n.toUri) ∧
    (∀ c : Component, Component.ofUri? c.toUri = .ok c) ∧
    Function.Injective toUri ∧
    (∀ uri text, normalForm? uri = .ok text →
      normalForm? text = .ok text ∧
      ∀ other, normalForm? other = .ok text ↔ ofUri? other = ofUri? uri) := by
  refine ⟨?_, fun n => ⟨.refl _, not_two_slashes_prefix_toUri n⟩, Component.ofUri?_toUri,
    toUri_injective, ?_⟩
  · intro n path before after slashed left right
    refine ⟨?_, fun single => ?_, fun authority whole => ?_⟩
    · exact ofUri?_of_uriPath slashed [] left right nofun (uriPath_path slashed)
    · exact ofUri?_of_uriPath slashed _ left right (by rintro c ⟨⟩; decide)
        (uriPath_scheme single)
    · exact ofUri?_of_uriPath slashed _ left right (by rintro c ⟨⟩; decide)
        (uriPath_authority slashed whole)
  · intro uri text normal
    obtain ⟨n, read, rfl⟩ := (normalForm?_eq_ok_iff uri text).mp normal
    refine ⟨(normalForm?_eq_ok_iff _ _).mpr ⟨n, ofUri?_toUri n, rfl⟩, fun other => ?_⟩
    rw [normalForm?_eq_ok_iff, read]
    constructor
    · rintro ⟨m, read', same⟩
      rw [read', toUri_injective same]
    · intro read'
      exact ⟨n, read', rfl⟩

end TrustSchema.Name
