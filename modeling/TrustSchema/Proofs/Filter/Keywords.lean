import Mathlib.Data.List.Forall2
import TrustSchema.Filter.Grammar

/-!
Keywords in configurations: which texts a keyword may be written as, and the keywords of the
relations.
-/

namespace TrustSchema

namespace Text

/-- The same character, or the other form of a letter of ASCII. -/
def SameLetter (c d : Char) : Prop :=
  c = d ∨ c = d.toUpper ∨ c = d.toLower

/-- A text is a keyword, whatever the case of its letters. -/
def IsKeyword (text : Text) (word : String) : Prop :=
  List.Forall₂ SameLetter text word.toList

theorem toLower_eq_toLower_iff (c d : Char) : c.toLower = d.toLower ↔ SameLetter c d := by
  have small := c.val.toNat_lt
  have small' := d.val.toNat_lt
  delta SameLetter Char.toLower Char.toUpper
  simp only [Char.ext_iff, ge_iff_le, UInt32.le_iff_toNat_le, ← UInt32.toNat_inj]
  split <;> split <;> grind [UInt32.toNat_add]

theorem lower_eq_lower_iff (text : Text) (word : String) :
    lower text = lower word.toList ↔ text.IsKeyword word := by
  rw [lower, lower, ← List.forall₂_eq_eq_eq, List.forall₂_map_left_iff, List.forall₂_map_right_iff,
    IsKeyword]
  simp only [toLower_eq_toLower_iff]

theorem sameWord_iff (text : Text) (word : String) :
    sameWord text word.toList = true ↔ text.IsKeyword word := by
  rw [sameWord, beq_iff_eq, lower_eq_lower_iff]

theorem isKeyword_toList (word : String) : IsKeyword word.toList word :=
  (sameWord_iff _ word).mp (sameWord_refl _)

end Text

theorem Info.Entry.hasKey_iff (entry : Entry) (word : String) :
    entry.hasKey word.toList = true ↔ entry.key.IsKeyword word :=
  Text.sameWord_iff entry.key word

namespace Relation

/-- The keyword of a relation. -/
def keyword : Relation → String
  | equal => "equal"
  | isPrefixOf => "is-prefix-of"
  | isStrictPrefixOf => "is-strict-prefix-of"

theorem word_eq_toList_keyword (r : Relation) : r.word = r.keyword.toList := by
  cases r <;> rfl

theorem sameWord_word_iff (r : Relation) (text : Text) :
    Text.sameWord r.word text = true ↔ text.IsKeyword r.keyword := by
  rw [Text.sameWord, beq_iff_eq, eq_comm, word_eq_toList_keyword, Text.lower_eq_lower_iff]

/-- No text is the keyword of two relations. -/
theorem eq_of_isKeyword {r s : Relation} {text : Text} (one : text.IsKeyword r.keyword)
    (other : text.IsKeyword s.keyword) : r = s := by
  -- The keywords differ in their lengths.
  have same := one.length_eq.symm.trans other.length_eq
  revert same
  cases r <;> cases s <;> decide

theorem ofWord?_eq_some_iff (text : Text) (r : Relation) :
    ofWord? text = some r ↔ text.IsKeyword r.keyword := by
  rw [← sameWord_word_iff]
  constructor
  · intro found
    exact List.find?_some (p := fun r : Relation => Text.sameWord r.word text) found
  · intro same
    cases found : ofWord? text with
    | none =>
      have every : r ∈ [equal, isPrefixOf, isStrictPrefixOf] := by cases r <;> decide
      exact absurd same (List.find?_eq_none.mp found r every)
    | some s =>
      have other : Text.sameWord s.word text = true :=
        List.find?_some (p := fun r : Relation => Text.sameWord r.word text) found
      rw [sameWord_word_iff] at same other
      rw [eq_of_isKeyword other same]

theorem ofWord?_eq_none_iff (text : Text) :
    ofWord? text = none ↔ ∀ r : Relation, ¬text.IsKeyword r.keyword := by
  rw [Option.eq_none_iff_forall_ne_some]
  simp only [ne_eq, ofWord?_eq_some_iff]

end Relation

end TrustSchema
