import TrustSchema.Proofs.Filter.Acceptance
import TrustSchema.Proofs.Info.Nesting

/-!
Blocks under the properties of a filter. One that holds an entry is always refused. One that holds
nothing but line ends leaves no trace in the tree, so that a policy is read without it: the value
before an unquoted brace is taken for the whole.
-/

namespace TrustSchema.Policy

open Info

variable {α : Type} [ComponentLanguage α]

/-- No property of a filter has entries under it. -/
theorem block_eq_nil_of_written {entry property : Entry} {f : Filter α} (written : Written entry f)
    (member : property ∈ entry.block) : property.block = [] := by
  obtain ⟨-, sequence⟩ := written
  generalize entry.block = properties at sequence member
  cases sequence with
  | relation kindIs _ propertyIs _ linkIs _ =>
    simp only [List.mem_cons, List.not_mem_nil, or_false] at member
    rcases member with rfl | rfl | rfl
    · exact kindIs.2.1
    · exact propertyIs.2.1
    · exact linkIs.2.1
  | pattern kindIs _ propertyIs _ =>
    simp only [List.mem_cons, List.not_mem_nil, or_false] at member
    rcases member with rfl | rfl
    · exact kindIs.2.1
    · exact propertyIs.2.1

theorem exists_written_of_mem {entries : List Entry} {policy : Policy α} {entry : Entry}
    (read : ofEntries? entries = .ok policy) (member : entry ∈ entries) :
    ∃ f : Filter α, Written entry f := by
  obtain ⟨filters, all, -⟩ := Text.ok_of_map read
  simp only [← filterOf?_ok_iff]
  exact (Text.exists_mapM_ok_iff filterOf? entries).mp ⟨filters, all⟩ entry member

theorem ofText?_ok_iff {text : Text} {located : List Located} (read : tokens text = .ok located)
    (policy : Policy α) :
    ofText? text = .ok policy ↔
      ∃ tree, SectionTokens 0 (located.map Located.token) tree ∧ ofEntries? tree = .ok policy := by
  have parsed : parse? text = ofTokens? located := by
    rw [parse?, read]
    rfl
  simp only [ofText?, parsed, ← ofTokens?_ok_iff]
  cases ofTokens? located <;> simp

/-- A block between two parts of a text that does not keep it from being a policy: the block
belongs to an entry and holds nothing but line ends, no other block follows, and with one line end
in its place the text writes the policy. -/
def Unnoticed (before after : List Token) (policy : Policy α) : Prop :=
  EndsWithEntry before ∧ ∃ breaks rest,
    after = List.replicate breaks .lineEnd ++ .blockClose :: rest ∧ ¬BeginsWithBlock rest ∧
      ∃ tree, SectionTokens 0 (before ++ .lineEnd :: rest) tree ∧ ofEntries? tree = .ok policy

/-- A policy with a block inside the block of a filter is refused, unless that block goes
unnoticed. -/
theorem ofText?_innerBlock {text : Text} {located : List Located} {before after : List Token}
    (read : tokens text = .ok located)
    (placed : located.map Located.token = before ++ .blockOpen :: after)
    (inside : nesting before = 1) :
    ((∃ e, (ofText? text : Except ConfigError (Policy α)) = .error e) ↔
      ¬∃ policy : Policy α, Unnoticed before after policy) ∧
    ∀ policy : Policy α, ofText? text = .ok policy ↔ Unnoticed before after policy := by
  have accepted (policy : Policy α) :
      ofText? text = .ok policy ↔ Unnoticed before after policy := by
    rw [ofText?_ok_iff read, placed]
    constructor
    · rintro ⟨tree, written, filters⟩
      obtain ⟨waiting, body, rest, inner, rfl, bodyWritten, entry, member, property, member',
        rfl⟩ := exists_property_of_block inside written
      -- The block is in the tree as that of a property, and no filter has one with entries.
      obtain ⟨f, entryWritten⟩ := exists_written_of_mem filters member
      rw [block_eq_nil_of_written entryWritten member'] at bodyWritten
      obtain ⟨breaks, rfl⟩ := eq_lineEnds_of_section bodyWritten
      rw [section_emptyBlock_iff waiting (by rw [inside]; decide)] at written
      exact ⟨waiting, breaks, rest, rfl, written.1, tree, written.2, filters⟩
    · rintro ⟨waiting, breaks, rest, rfl, apart, tree, written, filters⟩
      refine ⟨tree, ?_, filters⟩
      rw [section_emptyBlock_iff waiting (by rw [inside]; decide)]
      exact ⟨apart, written⟩
  refine ⟨?_, accepted⟩
  simp only [← accepted]
  cases (ofText? text : Except ConfigError (Policy α)) <;> simp

/-- A type with an entry in a block under it, and what stands before and after the brace. -/
def filledText : Text :=
  "filter \x7b type name \x7b x \x7d \x7d".toList

def filledFront : List Token :=
  [.word "filter".toList, .blockOpen, .word "type".toList, .word "name".toList]

def filledRest : List Token :=
  [.word "x".toList, .blockClose, .blockClose]

theorem ofText?_innerBlock_filled :
    tokens filledText =
        .ok ((filledFront ++ .blockOpen :: filledRest).map fun t => ⟨t, 1⟩) ∧
      nesting filledFront = 1 ∧
      ∃ e, (ofText? filledText : Except ConfigError (Policy Regex)) = .error e := by
  have read : tokens filledText =
      .ok ((filledFront ++ .blockOpen :: filledRest).map fun t => ⟨t, 1⟩) := by cbv
  have placed : ((filledFront ++ .blockOpen :: filledRest).map fun t => Located.mk t 1).map
      Located.token = filledFront ++ .blockOpen :: filledRest := rfl
  have inside : nesting filledFront = 1 := by decide
  refine ⟨read, inside, (ofText?_innerBlock read placed inside).1.mpr ?_⟩
  -- After the brace comes a word, neither a line end nor the closing brace.
  rintro ⟨policy, -, breaks, rest, body, -⟩
  cases breaks <;> cases body

/-- A name with an unquoted brace and nothing in the block. -/
def bracedText : Text :=
  "filter \x7b type name\n name /a\x7b\x7d\n relation is-prefix-of \x7d".toList

/-- The tokens up to the brace in the name, with their lines. -/
def bracedFront : List Located :=
  [⟨.word "filter".toList, 1⟩, ⟨.blockOpen, 1⟩, ⟨.word "type".toList, 1⟩,
    ⟨.word "name".toList, 1⟩, ⟨.lineEnd, 1⟩, ⟨.word "name".toList, 2⟩, ⟨.word "/a".toList, 2⟩]

def bracedRest : List Located :=
  [⟨.blockClose, 2⟩, ⟨.lineEnd, 2⟩, ⟨.word "relation".toList, 3⟩,
    ⟨.word "is-prefix-of".toList, 3⟩, ⟨.blockClose, 3⟩]

/-- The name is read without its braces, and the filter covers all names under it. -/
theorem ofText?_bracedText :
    tokens bracedText = .ok (bracedFront ++ ⟨.blockOpen, 2⟩ :: bracedRest) ∧
      nesting (bracedFront.map Located.token) = 1 ∧
      (ofText? bracedText : Except ConfigError (Policy Regex)) =
        .ok ⟨[.relation .isPrefixOf ⟨[⟨[0x61]⟩]⟩]⟩ := by
  have read : tokens bracedText = .ok (bracedFront ++ ⟨.blockOpen, 2⟩ :: bracedRest) := by cbv
  refine ⟨read, by decide, ?_⟩
  have parsed : parse? bracedText =
      .ok [.mk "filter".toList [] [.mk "type".toList "name".toList [],
        .mk "name".toList "/a".toList [], .mk "relation".toList "is-prefix-of".toList []]] := by
    rw [parse?, read]
    rfl
  have name : Name.ofUri? "/a".toList = .ok ⟨[⟨[0x61]⟩]⟩ := by cbv
  have property (key : String) (value : Text) :
      Filter.IsProperty (.mk key.toList value []) key value :=
    ⟨Text.isKeyword_toList key, rfl, rfl⟩
  have sequence := Filter.Written.relation (α := Regex) (property "type" "name".toList)
    (Text.isKeyword_toList "name") (property "name" _) name
    (property "relation" "is-prefix-of".toList) (Text.isKeyword_toList Relation.isPrefixOf.keyword)
  rw [ofText?, parsed]
  exact (ofEntries?_ok_iff _ _).mpr (.cons ⟨Text.isKeyword_toList "filter", sequence⟩ .nil)

end TrustSchema.Policy
