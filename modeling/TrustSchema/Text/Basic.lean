/-!
Texts are lists of characters, so that every reader in this library recurses on the text itself.
This module holds the cuts that the readers share: at the first occurrence of a character, at every
occurrence, and after a given beginning or before a given ending.

A reader gives a value and the text after it, or a fault. `ok_of_map` takes a read apart whose value
was changed by a function.
-/

namespace TrustSchema

/-- A text, character by character. -/
abbrev Text := List Char

namespace Text

/-- The text before the first `stop` and the text after it, if `stop` occurs. -/
def cutAt (stop : Char) : Text → Option (Text × Text)
  | [] => none
  | c :: rest =>
    if c = stop then some ([], rest)
    else (cutAt stop rest).map fun (before, after) => (c :: before, after)

theorem cutAt_eq_some {stop : Char} {text before after : Text}
    (found : cutAt stop text = some (before, after)) :
    text = before ++ stop :: after ∧ stop ∉ before := by
  induction text generalizing before with
  | nil => simp [cutAt] at found
  | cons c rest ih =>
    by_cases here : c = stop
    · simp only [cutAt, here, if_true, Option.some.injEq, Prod.mk.injEq] at found
      obtain ⟨rfl, rfl⟩ := found
      simp [here]
    · simp only [cutAt, here, if_false, Option.map_eq_some_iff, Prod.mk.injEq] at found
      obtain ⟨⟨b, a⟩, inner, rfl, rfl⟩ := found
      obtain ⟨rfl, absent⟩ := ih inner
      exact ⟨rfl, by simp [absent, Ne.symm here]⟩

theorem cutAt_length {stop : Char} {text before after : Text}
    (found : cutAt stop text = some (before, after)) : after.length < text.length := by
  rw [(cutAt_eq_some found).1]
  simp only [List.length_append, List.length_cons]
  omega

theorem cutAt_append {stop : Char} {before : Text} (absent : stop ∉ before) (after : Text) :
    cutAt stop (before ++ stop :: after) = some (before, after) := by
  induction before with
  | nil => simp [cutAt]
  | cons c rest ih =>
    rw [List.mem_cons, not_or] at absent
    simp [cutAt, Ne.symm absent.1, ih absent.2]

theorem cutAt_of_not_mem {stop : Char} {text : Text} (absent : stop ∉ text) :
    cutAt stop text = none := by
  induction text with
  | nil => rfl
  | cons c rest ih =>
    rw [List.mem_cons, not_or] at absent
    simp [cutAt, Ne.symm absent.1, ih absent.2]

/-- The text without its last character, if that is `last`. -/
def dropLast? (last : Char) (text : Text) : Option Text :=
  if text.getLast? = some last then some text.dropLast else none

theorem ok_of_map {ε α β : Type} {read : Except ε α} {f : α → β} {b : β}
    (mapped : read.map f = .ok b) : ∃ a, read = .ok a ∧ f a = b := by
  cases read with
  | error => simp [Except.map] at mapped
  | ok a => exact ⟨a, rfl, by simpa [Except.map] using mapped⟩

theorem ok_of_bind {ε α β : Type} {read : Except ε α} {next : α → Except ε β} {b : β}
    (whole : read >>= next = .ok b) : ∃ a, read = .ok a ∧ next a = .ok b := by
  cases read with
  | error => cases whole
  | ok a => exact ⟨a, rfl, whole⟩

theorem ok_of_any {ε α : Type} {read : Except ε α} {test : α → Bool}
    (passed : read.toOption.any test = true) : ∃ a, read = .ok a ∧ test a = true := by
  cases read with
  | error => cases passed
  | ok a => exact ⟨a, rfl, passed⟩

end Text

end TrustSchema
