import Mathlib.Algebra.Group.Nat.Defs
import TrustSchema.Pattern.Parser
import TrustSchema.Proofs.Text.Blank

/-!
The grammar of name patterns: which texts write which bounds, tests, elements and patterns. Nothing
here says how a text is read. The language of the tests is any one, so that a text between angle
brackets is a test exactly if that language takes it.
-/

namespace TrustSchema.Pattern.Grammar

open Text

/-- A number below 2⁶⁴: digits after an optional plus sign, with white space around. -/
inductive Count : Text → Nat → Prop
  | intro {before digits after : Text} (plus : Bool) :
      Blank before → Blank after → digits ≠ [] → (∀ c ∈ digits, c.isDigit = true) →
      Nat.ofDigitChars 10 digits 0 < 2 ^ 64 →
      Count (before ++ ((if plus then ['+'] else []) ++ digits) ++ after)
        (Nat.ofDigitChars 10 digits 0)

theorem le_of_mem_some {n m : Nat} (ordered : n ≤ m) : ∀ k ∈ some m, n ≤ k := by
  rintro k ⟨⟩
  exact ordered

theorem le_of_mem_none (n : Nat) : ∀ k ∈ (none : Option Nat), n ≤ k := by
  rintro k ⟨⟩

/-- What stands between braces: one number, or two on both sides of a comma, of which one may be
missing. The least number is not above the greatest. -/
inductive Limits : Text → Bounds → Prop
  | exactly {text n} : Count text n → Limits text ⟨n, some n, le_of_mem_some (Nat.le_refl n)⟩
  | atLeast {text blank n} : Count text n → Blank blank →
      Limits (text ++ ',' :: blank) ⟨n, none, le_of_mem_none n⟩
  | atMost {blank text m} : Blank blank → Count text m →
      Limits (blank ++ ',' :: text) ⟨0, some m, le_of_mem_some (Nat.zero_le m)⟩
  | between {left right n m} (ordered : n ≤ m) : Count left n → Count right m →
      Limits (left ++ ',' :: right) ⟨n, some m, le_of_mem_some ordered⟩

inductive Repetition : Text → Bounds → Prop
  | once : Repetition [] ⟨1, some 1, le_of_mem_some (Nat.le_refl 1)⟩
  | star : Repetition ['*'] ⟨0, none, le_of_mem_none 0⟩
  | plus : Repetition ['+'] ⟨1, none, le_of_mem_none 1⟩
  | question : Repetition ['?'] ⟨0, some 1, le_of_mem_some (Nat.zero_le 1)⟩
  | braces {text bounds} : Limits text bounds → Repetition ('{' :: (text ++ ['}'])) bounds

variable {α : Type} [ComponentLanguage α]

inductive Member : Text → ComponentPattern α → Prop
  | any : Member ['<', '>'] .any
  | expression {written test} : written ≠ [] → '>' ∉ written →
      ComponentLanguage.compile written = .ok test →
      Member ('<' :: (written ++ ['>'])) (.expression test)

inductive Members : Text → List (ComponentPattern α) → Prop
  | nil : Members [] []
  | cons {first rest member members} : Member first member → Members rest members →
      Members (first ++ rest) (member :: members)

inductive Test : Text → ComponentTest α → Prop
  | single {text member} : Member text member → Test text (.single member)
  | set {text members} (negated : Bool) : Members text members → members ≠ [] →
      Test ('[' :: ((if negated then ['^'] else []) ++ text ++ [']'])) (.set negated members)

mutual

/-- A test or a group, and how often it repeats. -/
inductive Element : Text → Node α → Prop
  | one {text after test bounds} : Test text test → Repetition after bounds →
      Element (text ++ after) (.one test bounds)
  | group {inner after nodes bounds} : Elements inner nodes → Repetition after bounds →
      Element ('(' :: (inner ++ ')' :: after)) (.group nodes bounds)

inductive Elements : Text → List (Node α) → Prop
  | nil : Elements [] []
  | cons {first rest node nodes} : Element first node → Elements rest nodes →
      Elements (first ++ rest) (node :: nodes)

end

theorem Elements.append {first last : Text} {nodes later : List (Node α)}
    (written : Elements first nodes) (after : Elements last later) :
    Elements (first ++ last) (nodes ++ later) := by
  cases written with
  | nil => exact after
  | cons one rest =>
    rw [List.append_assoc]
    exact .cons one (rest.append after)

/-- A pattern: elements, with a sign before them and one after them, or without. -/
inductive Whole : Text → Pattern α → Prop
  | intro {text body nodes} (anchoredStart anchoredEnd : Bool) : Elements body nodes →
      text = (if anchoredStart then ['^'] else []) ++ body ++
        (if anchoredEnd then ['$'] else []) →
      Whole text ⟨text, anchoredStart, anchoredEnd, nodes⟩

end TrustSchema.Pattern.Grammar
