import TrustSchema.Proofs.Filter.Decision
import TrustSchema.Proofs.Filter.Keywords
import TrustSchema.Proofs.Info.Tree
import TrustSchema.Proofs.Name.Uri
import TrustSchema.Proofs.Text.Items

/-!
Policies as texts: what is written for a list of rules is read as the policy of their filters. Every
name and every accepted pattern comes through, whatever octets or characters it is made of.
-/

namespace TrustSchema.Policy

open Info

variable {α : Type} [ComponentLanguage α]

/-- A rule: the names in a relation to a given one, or those that an accepted pattern matches. -/
inductive Rule (α : Type) [ComponentLanguage α] where
  | relation (r : Relation) (name : Name)
  | regex (text : Text) (pattern : Pattern α) (compiled : Pattern.compile? text = .ok pattern)

/-- How a policy is laid out: how far properties are indented, and whether the brace that opens
their block has a line of its own. -/
structure Layout where
  indent : Nat
  braceBelow : Bool

namespace Layout

/-- The line of a property. -/
def property (l : Layout) (key value : Text) : Text :=
  List.replicate l.indent ' ' ++ (key ++ ' ' :: (value ++ ['\n']))

/-- What stands between the key of a block and its first line. -/
def opening (l : Layout) : Text :=
  if l.braceBelow then ['\n', '{', '\n'] else [' ', '{', '\n']

end Layout

namespace Rule

/-- The filter that a rule stands for. -/
def filter : Rule α → Filter α
  | relation r name => .relation r name
  | regex _ pattern _ => .pattern pattern

/-- Which packets a rule covers. -/
def Covers (rule : Rule α) (p : Packet) : Prop :=
  rule.filter.Covers p

/-- The lines of a rule after its type. -/
def lines (l : Layout) : Rule α → Text
  | relation r name =>
    l.property "name".toList name.toUri ++ l.property "relation".toList r.keyword.toList
  | regex text _ _ => l.property "regex".toList (quote text)

/-- The block of a rule. -/
def block (l : Layout) (rule : Rule α) : Text :=
  "filter".toList ++ (l.opening ++
    (l.property "type".toList "name".toList ++ (rule.lines l ++ ['}', '\n'])))

/-- The properties of a rule after its type. -/
def properties : Rule α → List Entry
  | relation r name =>
    [.mk Filter.nameKey name.toUri [], .mk Filter.relationKey r.word []]
  | regex text _ _ => [.mk Filter.regexKey text []]

/-- The entry of a rule. -/
def entry (rule : Rule α) : Entry :=
  .mk filterKey [] (.mk Filter.typeKey Filter.nameType [] :: rule.properties)

end Rule

/-- The text of a list of rules, one block for each. -/
def textOf (l : Layout) (rules : List (Rule α)) : Text :=
  rules.flatMap (Rule.block l)

/-! ### From text to entries -/

theorem spells_indent (indent : Nat) : Spells (List.replicate indent ' ') [] := by
  induction indent with
  | zero => exact .nil
  | succ indent ih =>
    have blank : Spells [' '] [] := .blank (by decide) (by decide)
    exact blank.append ih

/-- A word that is not empty and holds no blank and no sign of the grammar may stand bare. -/
def Plain (word : Text) : Prop :=
  word ≠ [] ∧ ∀ c ∈ word, isBare c = true

theorem Layout.spells_property (l : Layout) {key text value : Text} (plain : Plain key)
    (spelled : Spells (text ++ ['\n']) [.word value, .lineEnd]) :
    Spells (l.property key text) [.word key, .word value, .lineEnd] := by
  have blank : Spells [' '] [] := .blank (by decide) (by decide)
  have separated : Spells (' ' :: (text ++ ['\n'])) [.word value, .lineEnd] := blank.append spelled
  exact (spells_indent l.indent).append (.bare plain.1 plain.2 (by decide) separated)

theorem Layout.writes_property (l : Layout) {key value : Text} (plain : Plain key)
    (plainValue : Plain value) : Writes 0 (l.property key value) [.mk key value []] :=
  ⟨_, l.spells_property plain (.bare plainValue.1 plainValue.2 (by decide) .newline),
    .property 0 key value⟩

theorem Layout.writes_quoted (l : Layout) {key : Text} (plain : Plain key) (value : Text) :
    Writes 0 (l.property key (quote value)) [.mk key value []] :=
  ⟨_, l.spells_property plain ((Spells.quote value).append .newline), .property 0 key value⟩

theorem Layout.spells_opening (l : Layout) : ∃ breaks start rest, l.opening = start :: rest ∧
    isBare start = false ∧
    Spells l.opening (List.replicate breaks .lineEnd ++ [.blockOpen, .lineEnd]) := by
  have body : Spells ['{', '\n'] [.blockOpen, .lineEnd] := Spells.blockOpen.append .newline
  rw [opening]
  cases l.braceBelow with
  | true => exact ⟨1, '\n', _, rfl, by decide, Spells.newline.append body⟩
  | false =>
    have blank : Spells [' '] [] := .blank (by decide) (by decide)
    exact ⟨0, ' ', _, rfl, by decide, blank.append body⟩

/-- A key, a block that opens after it, and what is written inside. -/
theorem Layout.writes_block (l : Layout) {key text : Text} {entries : List Entry}
    (plain : Plain key) (inside : Writes 0 text entries) :
    Writes 1 (key ++ (l.opening ++ (text ++ ['}', '\n']))) [.mk key [] entries] := by
  obtain ⟨breaks, start, rest, begins, ends, opened⟩ := l.spells_opening
  obtain ⟨written, spelled, built⟩ := inside
  have closed : Spells (text ++ ['}', '\n']) (written ++ [.blockClose, .lineEnd]) :=
    spelled.append (Spells.blockClose.append .newline)
  have body := opened.append closed
  rw [begins, List.cons_append] at body ⊢
  have tokens := Spells.bare plain.1 plain.2 ends body
  refine ⟨_, tokens, ?_⟩
  -- The line end after the opening brace belongs to the block, the one at the end to nothing.
  have block := (Builds.block key breaks ((Builds.lineEnd 0).append built)).append (.lineEnd 1)
  simpa using block

theorem plain_of_all {word : Text} (nonempty : word ≠ []) (bare : word.all isBare = true) :
    Plain word :=
  ⟨nonempty, List.all_eq_true.mp bare⟩

theorem plain_filterKey : Plain filterKey := plain_of_all (by decide) (by decide)
theorem plain_typeKey : Plain Filter.typeKey := plain_of_all (by decide) (by decide)
theorem plain_nameKey : Plain Filter.nameKey := plain_of_all (by decide) (by decide)
theorem plain_relationKey : Plain Filter.relationKey := plain_of_all (by decide) (by decide)
theorem plain_regexKey : Plain Filter.regexKey := plain_of_all (by decide) (by decide)

theorem plain_word (r : Relation) : Plain r.word := by
  cases r <;> exact plain_of_all (by decide) (by decide)

theorem plain_toUri (n : Name) : Plain n.toUri := by
  constructor
  · obtain ⟨rest, slash⟩ := n.exists_toUri_eq_cons
    rw [slash]
    exact List.cons_ne_nil _ _
  · intro c member
    rw [isBare_iff]
    refine ⟨Name.not_isBlank_of_mem_toUri member, ?_⟩
    -- Slashes and escaped octets avoid every sign that ends a bare word.
    rcases Name.mem_toUri member with rfl | printed
    · decide
    · refine ⟨?_, ?_, ?_, ?_⟩
      all_goals exact Text.Percent.ne_of_isPrinted printed (by decide)

theorem Rule.writes_block (l : Layout) (rule : Rule α) : Writes 1 (rule.block l) [rule.entry] := by
  have kind : Writes 0 (l.property Filter.typeKey Filter.nameType) _ :=
    l.writes_property plain_typeKey plain_nameKey
  have rest : Writes 0 (rule.lines l) rule.properties := by
    cases rule with
    | relation r name =>
      rw [lines, ← r.word_eq_toList_keyword]
      exact (l.writes_property plain_nameKey (plain_toUri name)).append
        (l.writes_property plain_relationKey (plain_word r))
    | regex text pattern compiled => exact l.writes_quoted plain_regexKey text
  have whole := l.writes_block plain_filterKey (kind.append rest)
  rwa [List.append_assoc] at whole

theorem parse?_textOf (l : Layout) (rules : List (Rule α)) :
    parse? (textOf l rules) = .ok (rules.map Rule.entry) :=
  parse?_of_writes (.flatMap (Rule.writes_block l) rules) (by decide)

example : textOf ⟨2, true⟩ [(.relation .isPrefixOf ⟨[⟨[0x61]⟩, ⟨[0x22]⟩]⟩ : Rule Regex)] =
    ("filter\n\x7b\n  type name\n  name /a/%22\n  relation is-prefix-of\n\x7d\n").toList := by
  decide +kernel

/-! ### From entries to filters -/

theorem ofWord?_word (r : Relation) : Relation.ofWord? r.word = some r := by
  cases r <;> rfl

theorem ofRelation?_word {β : Type} (r : Relation) (name : Name) :
    (Filter.ofRelation? name [.mk Filter.relationKey r.word []] : Except ConfigError (Filter β)) =
      .ok (.relation r name) := by
  have key : (Entry.mk Filter.relationKey r.word []).hasKey Filter.relationKey = true :=
    Text.sameWord_refl _
  have value : Filter.plainValue (.mk Filter.relationKey r.word []) = .ok r.word := rfl
  rw [Filter.ofRelation?, if_pos key, value]
  simp only [bind, Except.bind, ofWord?_word]
  rfl

theorem ofProperties?_toUri (name : Name) (rest : List Entry) :
    (Filter.ofProperties? (.mk Filter.nameKey name.toUri [] :: rest) :
      Except ConfigError (Filter α)) = Filter.ofRelation? name rest := by
  have key : (Entry.mk Filter.nameKey name.toUri []).hasKey Filter.nameKey = true :=
    Text.sameWord_refl _
  have value : Filter.plainValue (.mk Filter.nameKey name.toUri []) = .ok name.toUri := rfl
  rw [Filter.ofProperties?, if_pos key, value]
  simp only [bind, Except.bind, Name.ofUri?_toUri]

theorem ofProperties?_regex {text : Text} {pattern : Pattern α}
    (compiled : Pattern.compile? text = .ok pattern) :
    Filter.ofProperties? [.mk Filter.regexKey text []] = .ok (.pattern pattern) := by
  have other : ¬(Entry.mk Filter.regexKey text []).hasKey Filter.nameKey = true := by
    change ¬Text.sameWord Filter.regexKey Filter.nameKey = true
    decide +kernel
  have key : (Entry.mk Filter.regexKey text []).hasKey Filter.regexKey = true :=
    Text.sameWord_refl _
  have value : Filter.plainValue (.mk Filter.regexKey text []) = .ok text := rfl
  have accepted : Filter.ofPattern? text = .ok (Filter.pattern pattern) := by
    rw [Filter.ofPattern?, compiled]
    rfl
  rw [Filter.ofProperties?, if_neg other, if_pos key, value]
  simp only [bind, Except.bind, Filter.expectEnd, accepted]
  rfl

theorem filterOf?_entry (rule : Rule α) : filterOf? rule.entry = .ok rule.filter := by
  -- The key of the block, and the type that every rule states first, are as they should be.
  have typed : (filterOf? rule.entry : Except ConfigError (Filter α)) =
      Filter.ofProperties? rule.properties := rfl
  rw [typed]
  cases rule with
  | relation r name => exact (ofProperties?_toUri name _).trans (ofRelation?_word r name)
  | regex text pattern compiled => exact ofProperties?_regex compiled

theorem ofEntries?_map_entry (rules : List (Rule α)) :
    ofEntries? (rules.map Rule.entry) = .ok ⟨rules.map Rule.filter⟩ := by
  have each : (rules.map Rule.entry).mapM (filterOf? : Entry → Except ConfigError (Filter α)) =
      .ok (rules.map Rule.filter) := Text.mapM_map_ok filterOf? filterOf?_entry rules
  rw [ofEntries?, each]
  rfl

theorem ofText?_textOf_eq (l : Layout) (rules : List (Rule α)) :
    ofText? (textOf l rules) = .ok ⟨rules.map Rule.filter⟩ := by
  rw [ofText?, parse?_textOf]
  exact ofEntries?_map_entry rules

/-- The text of a list of rules is read as a policy with one filter for each rule, in order. A
filter covers the packets that its rule names, the first match is the first rule that does, and a
packet passes when there are no rules or one of them covers it. -/
theorem ofText?_textOf (l : Layout) (rules : List (Rule α)) :
    ∃ policy : Policy α, ofText? (textOf l rules) = .ok policy ∧
      policy.filters.length = rules.length ∧
      ∀ p : Packet,
        (∀ (i : Nat) f rule, policy.filters[i]? = some f → rules[i]? = some rule →
          (f.covers p = true ↔ rule.Covers p)) ∧
        (∀ i, policy.firstMatch? p = some i ↔
          (∃ rule, rules[i]? = some rule ∧ rule.Covers p) ∧
            ∀ j < i, ∀ rule, rules[j]? = some rule → ¬rule.Covers p) ∧
        (policy.admits p = true ↔ rules = [] ∨ ∃ rule ∈ rules, rule.Covers p) := by
  refine ⟨_, ofText?_textOf_eq l rules, List.length_map _, fun p => ⟨?_, ?_, ?_⟩⟩
  · intro i f rule found written
    rw [List.getElem?_map, written] at found
    cases found
    exact Filter.covers_iff _ p
  · intro i
    rw [firstMatch?_eq_some_iff]
    simp only [List.getElem?_map, Option.map_eq_some_iff, exists_exists_and_eq_and,
      forall_exists_index, and_imp, forall_apply_eq_imp_iff₂]
    rfl
  · rw [admits_iff]
    simp only [List.map_eq_nil_iff, List.mem_map, exists_exists_and_eq_and]
    rfl

end TrustSchema.Policy
