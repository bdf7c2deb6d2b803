import TrustSchema.Info.Tree
import TrustSchema.Proofs.Info.Tokens

/-!
Tokens that build given entries, whatever was built before them. What one token does is in the
builder's own step; here the steps of a property and of a block are put together, and then the
tokens of a whole text.
-/

namespace TrustSchema.Info

namespace Builder

/-- The pending entry, if there is one, can get no value any more. -/
def Ended (b : Builder) : Prop :=
  ∀ p, b.pending = some p → p.sameLine = false

theorem ended_of_none {b : Builder} (none : b.pending = none) : b.Ended := by
  intro p same
  rw [none] at same
  cases same

theorem settle_eq (b : Builder) : b.settle = ⟨b.outer, b.settle.entries, none⟩ := by
  obtain ⟨outer, entries, pending⟩ := b
  cases pending <;> rfl

theorem settle_outer (b : Builder) : b.settle.outer = b.outer := by
  rw [settle_eq]

theorem step_key {b : Builder} (ended : b.Ended) (key : Text) (line : Nat) :
    b.step ⟨.word key, line⟩ = .ok ⟨b.outer, b.settle.entries, some ⟨key, none, true⟩⟩ := by
  cases pending : b.pending with
  | none => simp only [step, pending, settle]
  | some p =>
    have later : p.sameLine = false := ended p pending
    simp only [step, pending, later, settle_outer]
    rfl

theorem step_lineEnd (b : Builder) (line : Nat) :
    ∃ after, b.step ⟨.lineEnd, line⟩ = .ok after ∧ after.Ended ∧ after.settle = b.settle := by
  refine ⟨_, rfl, ?_, ?_⟩
  · intro p same
    obtain ⟨q, -, rfl⟩ := Option.map_eq_some_iff.mp same
    rfl
  · obtain ⟨outer, entries, pending⟩ := b
    cases pending <;> rfl

end Builder

/-- After whatever entries came before, the tokens add these ones, in at most `depth` more nested
blocks. -/
def Builds (depth : Nat) (written : List Token) (entries : List Entry) : Prop :=
  ∀ (located : List Located) (b : Builder), located.map Located.token = written → b.Ended →
    b.outer.length + depth ≤ maxDepth →
    ∃ after, located.foldlM Builder.step b = .ok after ∧ after.Ended ∧
      after.settle = ⟨b.outer, entries.reverse ++ b.settle.entries, none⟩

private theorem foldlM_append_ok {first second : List Located} {b middle : Builder}
    (run : first.foldlM Builder.step b = .ok middle) :
    (first ++ second).foldlM Builder.step b = second.foldlM Builder.step middle := by
  rw [List.foldlM_append, run]
  rfl

private theorem foldlM_cons_ok {t : Located} {rest : List Located} {b middle : Builder}
    (run : b.step t = .ok middle) :
    (t :: rest).foldlM Builder.step b = rest.foldlM Builder.step middle := by
  rw [List.foldlM_cons, run]
  rfl

namespace Builds

theorem nil (depth : Nat) : Builds depth [] [] := by
  intro located b spelled ended shallow
  obtain rfl := List.map_eq_nil_iff.mp spelled
  exact ⟨b, rfl, ended, b.settle_eq⟩

theorem append {depth : Nat} {xs ys : List Token} {first second : List Entry}
    (before : Builds depth xs first) (after : Builds depth ys second) :
    Builds depth (xs ++ ys) (first ++ second) := by
  intro located b spelled ended shallow
  obtain ⟨earlier, later, rfl, spelledFirst, spelledSecond⟩ := List.map_eq_append_iff.mp spelled
  obtain ⟨middle, run, ended, settled⟩ := before earlier b spelledFirst ended shallow
  -- The second part is read at the depth of the first.
  have sameOuter : middle.outer = b.outer := by rw [← middle.settle_outer, settled]
  rw [← sameOuter] at shallow
  obtain ⟨last, run', ended, settled'⟩ := after later middle spelledSecond ended shallow
  refine ⟨last, ?_, ended, ?_⟩
  · rw [foldlM_append_ok run, run']
  · rw [settled', settled, sameOuter, List.reverse_append, List.append_assoc]

theorem lineEnd (depth : Nat) : Builds depth [.lineEnd] [] := by
  intro located b spelled ended shallow
  obtain ⟨⟨token, line⟩, rfl, rfl⟩ := List.map_eq_singleton_iff.mp spelled
  obtain ⟨after, run, ended, settled⟩ := b.step_lineEnd line
  refine ⟨after, ?_, ended, ?_⟩
  · rw [foldlM_cons_ok run]
    rfl
  · rw [settled]
    exact b.settle_eq

theorem property (depth : Nat) (key value : Text) :
    Builds depth [.word key, .word value, .lineEnd] [.mk key value []] := by
  intro located b spelled ended shallow
  simp only [List.map_eq_cons_iff, List.map_eq_nil_iff] at spelled
  obtain ⟨⟨_, line⟩, _, rfl, rfl, ⟨_, line'⟩, _, rfl, rfl, ⟨_, line''⟩, _, rfl, rfl, rfl⟩ := spelled
  refine ⟨⟨b.outer, b.settle.entries, some ⟨key, some value, false⟩⟩, ?_, ?_, rfl⟩
  · rw [foldlM_cons_ok (Builder.step_key ended key line)]
    rfl
  · rintro p ⟨⟩
    rfl

/-- Line ends keep a key pending, whether or not its line has ended before. -/
private theorem run_lineEnds (outer : List OpenBlock) (entries : List Entry) (key : Text)
    {lines : List Located} (breaks : Nat) (same : Bool)
    (spelled : lines.map Located.token = List.replicate breaks .lineEnd) :
    ∃ same', lines.foldlM Builder.step ⟨outer, entries, some ⟨key, none, same⟩⟩ =
      .ok ⟨outer, entries, some ⟨key, none, same'⟩⟩ := by
  induction lines generalizing breaks same with
  | nil => exact ⟨same, rfl⟩
  | cons t lines ih =>
    cases breaks with
    | zero => cases spelled
    | succ breaks =>
      obtain ⟨token, spelled⟩ := List.cons.inj spelled
      obtain ⟨same', run⟩ := ih breaks false spelled
      obtain ⟨_, line⟩ := t
      obtain rfl := token
      exact ⟨same', run⟩

/-- A key and its block, which opens after any number of line ends. -/
theorem block {depth : Nat} {inside : List Token} {entries : List Entry} (key : Text)
    (breaks : Nat) (body : Builds depth inside entries) :
    Builds (depth + 1)
      (.word key :: (List.replicate breaks .lineEnd ++ .blockOpen :: (inside ++ [.blockClose])))
      [.mk key [] entries] := by
  intro located b spelled ended shallow
  simp only [List.map_eq_cons_iff, List.map_eq_append_iff, List.map_eq_nil_iff] at spelled
  obtain ⟨⟨_, line⟩, _, rfl, rfl, lines, _, rfl, spelledLines, ⟨_, line'⟩, _, rfl, rfl, contents, _,
    rfl, spelledInside, ⟨_, line''⟩, _, rfl, rfl, rfl⟩ := spelled
  obtain ⟨same, waited⟩ := run_lineEnds b.outer b.settle.entries key breaks true spelledLines
  have opens : Builder.step ⟨b.outer, b.settle.entries, some ⟨key, none, same⟩⟩
      ⟨.blockOpen, line'⟩ = .ok ⟨⟨key, [], b.settle.entries⟩ :: b.outer, [], none⟩ :=
    if_neg (by simp only; omega)
  -- Inside the block nothing is written yet, and one block less may open.
  have fits : (⟨⟨key, [], b.settle.entries⟩ :: b.outer, [], none⟩ : Builder).outer.length +
      depth ≤ maxDepth := by
    rw [List.length_cons]
    omega
  obtain ⟨filled, run, -, settled⟩ :=
    body contents _ spelledInside (Builder.ended_of_none rfl) fits
  have outside : filled.outer = ⟨key, [], b.settle.entries⟩ :: b.outer := by
    rw [← filled.settle_outer, settled]
  refine ⟨⟨b.outer, .mk key [] entries :: b.settle.entries, none⟩, ?_,
    Builder.ended_of_none rfl, rfl⟩
  rw [foldlM_cons_ok (Builder.step_key ended key line), foldlM_append_ok waited,
    foldlM_cons_ok opens, foldlM_append_ok run]
  simp only [List.foldlM_cons, Builder.step, outside, settled]
  simp only [Builder.settle, List.append_nil, List.reverse_reverse]
  rfl

end Builds

/-- The text writes the entries, in any place where so many more nested blocks may open. -/
def Writes (depth : Nat) (text : Text) (entries : List Entry) : Prop :=
  ∃ written, Spells text written ∧ Builds depth written entries

namespace Writes

theorem append {depth : Nat} {a b : Text} {first second : List Entry}
    (before : Writes depth a first) (after : Writes depth b second) :
    Writes depth (a ++ b) (first ++ second) := by
  obtain ⟨xs, spelled, built⟩ := before
  obtain ⟨ys, spelled', built'⟩ := after
  exact ⟨xs ++ ys, spelled.append spelled', built.append built'⟩

theorem flatMap {ι : Type} {depth : Nat} {text : ι → Text} {entry : ι → Entry}
    (each : ∀ i, Writes depth (text i) [entry i]) (items : List ι) :
    Writes depth (items.flatMap text) (items.map entry) := by
  induction items with
  | nil => exact ⟨[], .nil, .nil depth⟩
  | cons item items ih => exact (each item).append ih

end Writes

theorem parse?_of_writes {text : Text} {entries : List Entry} {depth : Nat}
    (writes : Writes depth text entries) (shallow : depth ≤ maxDepth) :
    parse? text = .ok entries := by
  obtain ⟨written, spelled, built⟩ := writes
  obtain ⟨located, same, read⟩ := spelled.tokens
  have fits : Builder.start.outer.length + depth ≤ maxDepth := by
    change 0 + depth ≤ maxDepth
    omega
  obtain ⟨after, run, -, settled⟩ :=
    built located Builder.start same (Builder.ended_of_none rfl) fits
  have closed : after.outer = [] := by
    rw [← after.settle_outer, settled]
    rfl
  have tree : after.settle.entries.reverse = entries := by
    rw [settled]
    change (entries.reverse ++ []).reverse = entries
    rw [List.append_nil, List.reverse_reverse]
  have whole : ofTokens? located = after.finish (lastLine located) := by
    rw [ofTokens?, run]
    rfl
  rw [parse?, read]
  change ofTokens? located = _
  rw [whole, Builder.finish, closed, tree]

end TrustSchema.Info
