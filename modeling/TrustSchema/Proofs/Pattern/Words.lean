import TrustSchema.Pattern.Basic

/-!
The language of a name pattern, told without positions: which sequences of component texts are
words of an element, of a number of repetitions of it, and of a sequence of elements. Nothing here
refers to how a pattern is followed through a name.
-/

namespace TrustSchema.Pattern

variable {α : Type} [ComponentLanguage α]

/-- The text of a component satisfies a test. -/
inductive ComponentPattern.Admits : ComponentPattern α → Text → Prop
  | any (text) : Admits .any text
  | expression {test text} :
      ComponentLanguage.accepts test text = true → Admits (.expression test) text

/-- The text of a component satisfies one of the alternatives, or none of them in a negated set. -/
inductive ComponentTest.Admits : ComponentTest α → Text → Prop
  | single {member text} : member.Admits text → Admits (.single member) text
  | listed {members member text} :
      member ∈ members → member.Admits text → Admits (.set false members) text
  | excluded {members text} :
      (∀ member ∈ members, ¬member.Admits text) → Admits (.set true members) text

/-- How often an element may repeat. -/
def Node.bounds : Node α → Bounds
  | .one _ bounds => bounds
  | .group _ bounds => bounds

mutual

/-- The words of one repetition of an element. -/
inductive Node.Once : Node α → List Text → Prop
  | one {test text bounds} : test.Admits text → Node.Once (.one test bounds) [text]
  | group {inner word bounds} : Sequence inner word → Node.Once (.group inner bounds) word

/-- The words of a number of repetitions of an element, one after another. -/
inductive Node.Times : Node α → Nat → List Text → Prop
  | zero {node} : Node.Times node 0 []
  | succ {node count first rest} :
      Node.Once node first → Node.Times node count rest →
      Node.Times node (count + 1) (first ++ rest)

/-- The words of a sequence of elements, each repeated as often as its bounds allow. -/
inductive Sequence : List (Node α) → List Text → Prop
  | nil : Sequence [] []
  | cons {node rest count first last} :
      node.bounds.allow count → Node.Times node count first → Sequence rest last →
      Sequence (node :: rest) (first ++ last)

end

theorem ComponentPattern.accepts_iff (p : ComponentPattern α) (text : Text) :
    p.accepts text = true ↔ p.Admits text := by
  constructor
  · intro accepted
    cases p with
    | any => exact .any text
    | expression test => exact .expression accepted
  · intro admitted
    cases admitted with
    | any => rfl
    | expression accepted => exact accepted

theorem ComponentTest.accepts_iff (t : ComponentTest α) (text : Text) :
    t.accepts text = true ↔ t.Admits text := by
  cases t with
  | single member =>
    rw [accepts, ComponentPattern.accepts_iff]
    constructor
    · exact .single
    · rintro ⟨admitted⟩
      exact admitted
  | set negated members =>
    have some_accepts : members.any (·.accepts text) = true ↔
        ∃ member ∈ members, member.Admits text := by
      simp only [List.any_eq_true, ComponentPattern.accepts_iff]
    cases negated with
    | false =>
      rw [accepts, Bool.bne_false, some_accepts]
      constructor
      · rintro ⟨member, listed, admitted⟩
        exact .listed listed admitted
      · rintro (_ | ⟨listed, admitted⟩)
        exact ⟨_, listed, admitted⟩
    | true =>
      rw [accepts, Bool.bne_true, Bool.not_eq_true', Bool.eq_false_iff, ne_eq, some_accepts]
      constructor
      · intro none
        exact .excluded fun member listed admitted => none ⟨member, listed, admitted⟩
      · rintro (_ | _ | ⟨none⟩) ⟨member, listed, admitted⟩
        exact none member listed admitted

theorem Node.once_one_iff (test : ComponentTest α) (bounds : Bounds) (word : List Text) :
    (Node.one test bounds).Once word ↔ ∃ text, word = [text] ∧ test.Admits text := by
  constructor
  · rintro ⟨admitted⟩
    exact ⟨_, rfl, admitted⟩
  · rintro ⟨text, rfl, admitted⟩
    exact .one admitted

theorem Node.once_group_iff (inner : List (Node α)) (bounds : Bounds) (word : List Text) :
    (Node.group inner bounds).Once word ↔ Sequence inner word := by
  constructor
  · rintro (_ | ⟨sequence⟩)
    exact sequence
  · exact .group

theorem Node.times_zero_iff (node : Node α) (word : List Text) :
    node.Times 0 word ↔ word = [] := by
  constructor
  · rintro ⟨⟩
    rfl
  · rintro rfl
    exact .zero

theorem Node.times_succ_iff (node : Node α) (count : Nat) (word : List Text) :
    node.Times (count + 1) word ↔
      ∃ first rest, word = first ++ rest ∧ node.Once first ∧ node.Times count rest := by
  constructor
  · rintro (_ | ⟨once, times⟩)
    exact ⟨_, _, rfl, once, times⟩
  · rintro ⟨first, rest, rfl, once, times⟩
    exact .succ once times

theorem sequence_nil_iff (word : List Text) :
    Sequence ([] : List (Node α)) word ↔ word = [] := by
  constructor
  · rintro ⟨⟩
    rfl
  · rintro rfl
    exact .nil

theorem sequence_cons_iff (node : Node α) (rest : List (Node α)) (word : List Text) :
    Sequence (node :: rest) word ↔
      ∃ first last, word = first ++ last ∧
        (∃ count, node.bounds.allow count ∧ node.Times count first) ∧ Sequence rest last := by
  constructor
  · rintro (_ | ⟨allowed, times, after⟩)
    exact ⟨_, _, rfl, ⟨_, allowed, times⟩, after⟩
  · rintro ⟨first, last, rfl, ⟨count, allowed, times⟩, after⟩
    exact .cons allowed times after

theorem sequence_append_iff (nodes later : List (Node α)) (word : List Text) :
    Sequence (nodes ++ later) word ↔
      ∃ first last, word = first ++ last ∧ Sequence nodes first ∧ Sequence later last := by
  induction nodes generalizing word with
  | nil =>
    simp only [List.nil_append, sequence_nil_iff]
    constructor
    · intro after
      exact ⟨[], word, rfl, rfl, after⟩
    · rintro ⟨_, last, rfl, rfl, after⟩
      exact after
  | cons node nodes ih =>
    simp only [List.cons_append, sequence_cons_iff, ih]
    constructor
    · rintro ⟨u, _, rfl, times, v, w, rfl, inner, after⟩
      exact ⟨u ++ v, w, (List.append_assoc u v w).symm, ⟨u, v, rfl, times, inner⟩, after⟩
    · rintro ⟨_, w, rfl, ⟨u, v, rfl, times, inner⟩, after⟩
      exact ⟨u, v ++ w, List.append_assoc u v w, times, v, w, rfl, inner, after⟩

/-- One test that stands once is passed by one text. -/
theorem sequence_once_iff (test : ComponentTest α) (word : List Text) :
    Sequence [.one test (.exactly 1)] word ↔ ∃ text, word = [text] ∧ test.Admits text := by
  constructor
  · rintro (_ | @⟨_, _, count, first, last, allowed, times, after⟩)
    obtain rfl : count = 1 := Nat.le_antisymm (allowed.2 1 rfl) allowed.1
    obtain ⟨u, v, rfl, once, none⟩ := (Node.times_succ_iff _ 0 first).mp times
    obtain rfl := (Node.times_zero_iff _ v).mp none
    obtain rfl := (sequence_nil_iff last).mp after
    simpa using (Node.once_one_iff _ _ u).mp once
  · rintro ⟨text, rfl, admitted⟩
    have once : (Node.one test (.exactly 1)).Times 1 ([text] ++ []) := .succ (.one admitted) .zero
    have allowed : (Node.one test (.exactly 1)).bounds.allow 1 :=
      ⟨Nat.le_refl 1, by simp [Node.bounds, Bounds.exactly]⟩
    exact .cons allowed once .nil

end TrustSchema.Pattern
