import Mathlib.Data.List.TakeWhile
import TrustSchema.Text.Blank

/-!
Trimming takes white space off both ends of a text and nothing else: what is left has it around, and
a text without any white space is what trimming leaves when some is put around it.
-/

namespace TrustSchema.Text

/-- White space only. -/
def Blank (text : Text) : Prop :=
  ∀ c ∈ text, isBlank c = true

theorem dropWhile_of_solid {text : Text} (solid : ∀ c ∈ text, isBlank c = false) :
    text.dropWhile isBlank = text := by
  cases text with
  | nil => rfl
  | cons c rest => simp [solid c List.mem_cons_self]

theorem trim_of_solid {text : Text} (solid : ∀ c ∈ text, isBlank c = false) : trim text = text := by
  have backwards : ∀ c ∈ text.reverse, isBlank c = false :=
    fun c member => solid c (List.mem_reverse.mp member)
  rw [trim, dropWhile_of_solid solid, dropWhile_of_solid backwards, List.reverse_reverse]

theorem exists_trim (text : Text) :
    ∃ before after, Blank before ∧ Blank after ∧ text = before ++ trim text ++ after := by
  refine ⟨text.takeWhile isBlank, ((text.dropWhile isBlank).reverse.takeWhile isBlank).reverse,
    fun c member => List.mem_takeWhile_imp member, ?_, ?_⟩
  · intro c member
    exact List.mem_takeWhile_imp (List.mem_reverse.mp member)
  · rw [trim, List.append_assoc, ← List.reverse_append, List.takeWhile_append_dropWhile,
      List.reverse_reverse, List.takeWhile_append_dropWhile]

/-- Only the two ends of what is left need to be solid. -/
theorem trim_of_solid_ends {before core after : Text} (left : Blank before) (right : Blank after)
    (first : ∀ c ∈ core.head?, isBlank c = false) (last : ∀ c ∈ core.getLast?, isBlank c = false) :
    trim (before ++ core ++ after) = core := by
  have right' : ∀ c ∈ after.reverse, isBlank c = true :=
    fun c member => right c (List.mem_reverse.mp member)
  rw [trim, List.append_assoc, List.dropWhile_append_of_pos left]
  cases front : core with
  | nil =>
    rw [List.nil_append, ← List.append_nil after, List.dropWhile_append_of_pos right]
    rfl
  | cons c rest =>
    have solid : isBlank c = false := first c (by rw [front]; rfl)
    rw [List.cons_append, List.dropWhile_cons_of_neg (by simp [solid]), ← List.cons_append,
      ← front, List.reverse_append, List.dropWhile_append_of_pos right']
    -- From behind the last character comes first.
    cases back : core.reverse with
    | nil => exact (List.reverse_eq_nil_iff.mp back).symm
    | cons d others =>
      have solid' : isBlank d = false := by
        apply last
        rw [List.getLast?_eq_head?_reverse, back]
        rfl
      rw [List.dropWhile_cons_of_neg (by simp [solid']), ← back, List.reverse_reverse]

theorem trim_surrounded {before core after : Text} (left : Blank before) (right : Blank after)
    (solid : ∀ c ∈ core, isBlank c = false) : trim (before ++ core ++ after) = core :=
  trim_of_solid_ends left right (fun c member => solid c (List.mem_of_mem_head? member))
    (fun c member => solid c (List.mem_of_mem_getLast? member))

theorem trim_eq_nil_iff (text : Text) : trim text = [] ↔ Blank text := by
  constructor
  · intro nothing
    obtain ⟨before, after, left, right, whole⟩ := exists_trim text
    rw [nothing, List.append_nil] at whole
    intro c member
    rw [whole, List.mem_append] at member
    rcases member with early | late
    · exact left c early
    · exact right c late
  · intro blank
    have none : Blank [] := nofun
    have solid : ∀ c ∈ ([] : Text), isBlank c = false := nofun
    simpa using trim_surrounded blank none solid

/-- What a text is without the white space around it. -/
def Trims (text core : Text) : Prop :=
  ∃ before after, Blank before ∧ Blank after ∧ text = before ++ core ++ after ∧
    (∀ c ∈ core.head?, isBlank c = false) ∧ ∀ c ∈ core.getLast?, isBlank c = false

theorem eq_false_of_head?_dropWhile {p : Char → Bool} {text : Text} {c : Char}
    (first : c ∈ (text.dropWhile p).head?) : p c = false := by
  have stopped := List.head?_dropWhile_not p text
  rw [Option.mem_def.mp first] at stopped
  exact stopped

theorem eq_of_head?_dropWhile_ne {stop : Char} {text : Text} {c : Char}
    (first : c ∈ (text.dropWhile (· ≠ stop)).head?) : c = stop := by
  simpa using eq_false_of_head?_dropWhile first

theorem not_mem_takeWhile_ne (stop : Char) (text : Text) : stop ∉ text.takeWhile (· ≠ stop) := by
  intro member
  simpa using List.mem_takeWhile_imp member

theorem trims_iff (text core : Text) : Trims text core ↔ core = trim text := by
  constructor
  · rintro ⟨before, after, left, right, rfl, first, last⟩
    exact (trim_of_solid_ends left right first last).symm
  · rintro rfl
    obtain ⟨before, after, left, right, whole⟩ := exists_trim text
    refine ⟨before, after, left, right, whole, fun c first => ?_, fun c last => ?_⟩
    · -- What is cut off behind leaves the first character alone, unless nothing is left.
      have cut := congrArg List.reverse
        (List.takeWhile_append_dropWhile (p := isBlank) (l := (text.dropWhile isBlank).reverse))
      rw [List.reverse_append, List.reverse_reverse] at cut
      have whole : c ∈ (text.dropWhile isBlank).head? := by
        rw [← cut, ← trim, List.head?_append, Option.mem_def.mp first]
        rfl
      exact eq_false_of_head?_dropWhile whole
    · -- From behind the last character is the first that is not cut off.
      rw [trim, List.getLast?_reverse] at last
      exact eq_false_of_head?_dropWhile last

end TrustSchema.Text
