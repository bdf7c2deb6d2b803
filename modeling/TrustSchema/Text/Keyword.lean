import TrustSchema.Text.Basic

/-!
Keywords are compared without regard to the case of ASCII letters; other characters only equal
themselves.
-/

namespace TrustSchema.Text

/-- The text with ASCII capitals written small. -/
def lower (text : Text) : Text :=
  text.map Char.toLower

/-- Equality up to the case of ASCII letters. -/
def sameWord (a b : Text) : Bool :=
  lower a == lower b

theorem sameWord_refl (a : Text) : sameWord a a = true := by
  simp [sameWord]

end TrustSchema.Text
