import TrustSchema.Proofs.Filter.Keywords
import TrustSchema.Proofs.Text.Items

/-!
Which sequences of properties are filters, which entries are policies, and what is reported for all
others. The faults of a filter have a fixed order: those of the type come first, then those of the
property after it, and where there are several the first one is reported.
-/

namespace TrustSchema

open Info

namespace Filter

/-- An entry is a property: it has a key and a value, but no block. -/
def IsProperty (entry : Entry) (key : String) (value : Text) : Prop :=
  entry.key.IsKeyword key ∧ entry.block = [] ∧ entry.value = value

theorem plainValue_ok_iff (property : Entry) (value : Text) :
    plainValue property = .ok value ↔ property.block = [] ∧ property.value = value := by
  rw [plainValue]
  split
  next empty => simp [List.isEmpty_iff.mp empty]
  next filled => simp [List.isEmpty_iff.not.mp filled]

theorem plainValue_error_iff (property : Entry) (e : ConfigError) :
    plainValue property = .error e ↔ property.block ≠ [] ∧ e = .nestedSection property.key := by
  rw [plainValue]
  split
  next empty => simp [List.isEmpty_iff.mp empty]
  next filled => simp [List.isEmpty_iff.not.mp filled, eq_comm]

/-- No key is both that of a name and that of a regex. -/
theorem not_both_keys {property : Entry} (named : property.key.IsKeyword "name")
    (regex : property.key.IsKeyword "regex") : False := by
  have same := named.length_eq.symm.trans regex.length_eq
  revert same
  decide

variable {α : Type} [ComponentLanguage α]

/-- The properties of a filter. Their number and their order are fixed. -/
inductive Written : List Entry → Filter α → Prop
  | relation {kind property link : Entry} {type uri word : Text} {name : Name} {r : Relation} :
      IsProperty kind "type" type → type.IsKeyword "name" →
      IsProperty property "name" uri → Name.ofUri? uri = .ok name →
      IsProperty link "relation" word → word.IsKeyword r.keyword →
      Written [kind, property, link] (.relation r name)
  | pattern {kind property : Entry} {type text : Text} {p : Pattern α} :
      IsProperty kind "type" type → type.IsKeyword "name" →
      IsProperty property "regex" text → Pattern.compile? text = .ok p →
      Written [kind, property] (.pattern p)

variable (α) in
/-- What can be wrong with the properties of a filter, and the place of each fault in the order in
which faults are reported. No fault presumes that there is none before it. -/
inductive Fault : List Entry → Nat → ConfigError → Prop
  | missingType {entries : List Entry} :
      (∀ kind ∈ entries.head?, ¬kind.key.IsKeyword "type") → Fault entries 0 .missingType
  | nestedType {kind : Entry} {rest : List Entry} :
      kind.block ≠ [] → Fault (kind :: rest) 1 (.nestedSection kind.key)
  | unsupportedType {kind : Entry} {rest : List Entry} :
      ¬kind.value.IsKeyword "name" →
      Fault (kind :: rest) 2 (.unsupportedType kind.value)
  | missingProperties {kind : Entry} : Fault [kind] 3 .missingProperties
  | unexpectedProperty {kind property : Entry} {rest : List Entry} :
      ¬property.key.IsKeyword "name" → ¬property.key.IsKeyword "regex" →
      Fault (kind :: property :: rest) 4 (.unexpectedProperty property.key)
  -- A name and its relation.
  | nestedName {kind property : Entry} {rest : List Entry} :
      property.key.IsKeyword "name" → property.block ≠ [] →
      Fault (kind :: property :: rest) 5 (.nestedSection property.key)
  | invalidName {kind property : Entry} {rest : List Entry} {cause : NameError} :
      property.key.IsKeyword "name" → Name.ofUri? property.value = .error cause →
      Fault (kind :: property :: rest) 6 (.invalidName property.value cause)
  | missingRelation {kind property : Entry} {rest : List Entry} :
      property.key.IsKeyword "name" → (∀ link ∈ rest.head?, ¬link.key.IsKeyword "relation") →
      Fault (kind :: property :: rest) 7 .missingRelation
  | nestedRelation {kind property link : Entry} {rest : List Entry} :
      property.key.IsKeyword "name" → link.block ≠ [] →
      Fault (kind :: property :: link :: rest) 8 (.nestedSection link.key)
  | unsupportedRelation {kind property link : Entry} {rest : List Entry} :
      property.key.IsKeyword "name" → (∀ r : Relation, ¬link.value.IsKeyword r.keyword) →
      Fault (kind :: property :: link :: rest) 9 (.unsupportedRelation link.value)
  | afterRelation {kind property link extra : Entry} {rest : List Entry} :
      property.key.IsKeyword "name" →
      Fault (kind :: property :: link :: extra :: rest) 10 (.trailingProperty extra.key)
  -- A pattern, whose text is looked at only if nothing comes after it.
  | nestedRegex {kind property : Entry} {rest : List Entry} :
      property.key.IsKeyword "regex" → property.block ≠ [] →
      Fault (kind :: property :: rest) 5 (.nestedSection property.key)
  | afterRegex {kind property extra : Entry} {rest : List Entry} :
      property.key.IsKeyword "regex" →
      Fault (kind :: property :: extra :: rest) 6 (.trailingProperty extra.key)
  | invalidRegex {kind property : Entry} {rest : List Entry} {cause : PatternError} :
      property.key.IsKeyword "regex" →
      (Pattern.compile? property.value : Except PatternError (Pattern α)) = .error cause →
      Fault (kind :: property :: rest) 7 (.invalidRegex property.value cause)

variable (α) in
/-- Nothing is wrong before a place. -/
def ClearBefore (entries : List Entry) (place : Nat) : Prop :=
  ∀ earlier < place, ∀ e, ¬Fault α entries earlier e

variable (α) in
/-- The fault that stands before all others. -/
def FirstFault (entries : List Entry) (e : ConfigError) : Prop :=
  ∃ place, Fault α entries place e ∧ ClearBefore α entries place

theorem ClearBefore.next {entries : List Entry} {place : Nat} (clear : ClearBefore α entries place)
    (fine : ∀ e, ¬Fault α entries place e) : ClearBefore α entries (place + 1) := by
  intro earlier before
  rcases Nat.lt_succ_iff_lt_or_eq.mp before with lower | rfl
  · exact clear earlier lower
  · exact fine

/-- A place has one fault at most, since a property is either a name or a regex. -/
theorem Fault.unique {entries : List Entry} {place : Nat} {e e' : ConfigError}
    (one : Fault α entries place e) (other : Fault α entries place e') : e = e' := by
  cases one with
  | nestedName named =>
    cases other with
    | nestedName => rfl
    | nestedRegex => rfl
  | nestedRegex =>
    cases other with
    | nestedName => rfl
    | nestedRegex => rfl
  | invalidName named failed =>
    cases other with
    | invalidName _ failed' =>
      cases failed.symm.trans failed'
      rfl
    | afterRegex regex => exact (not_both_keys named regex).elim
  | afterRegex regex =>
    cases other with
    | invalidName named => exact (not_both_keys named regex).elim
    | afterRegex => rfl
  | missingRelation named =>
    cases other with
    | missingRelation => rfl
    | invalidRegex regex => exact (not_both_keys named regex).elim
  | invalidRegex regex failed =>
    cases other with
    | missingRelation named => exact (not_both_keys named regex).elim
    | invalidRegex _ failed' =>
      cases failed.symm.trans failed'
      rfl
  | _ => cases other; rfl

theorem FirstFault.unique {entries : List Entry} {e e' : ConfigError}
    (one : FirstFault α entries e) (other : FirstFault α entries e') : e = e' := by
  obtain ⟨place, fault, clear⟩ := one
  obtain ⟨place', fault', clear'⟩ := other
  -- Neither place is before the other.
  rcases Nat.lt_trichotomy place place' with before | rfl | after
  · exact absurd fault (clear' place before e)
  · exact fault.unique fault'
  · exact absurd fault' (clear place' after e')

theorem Written.not_fault {entries : List Entry} {f : Filter α} (written : Written entries f)
    (place : Nat) (e : ConfigError) : ¬Fault α entries place e := by
  intro fault
  cases written with
  | @relation kind property link _ _ _ _ _ kindIs typed propertyIs read linkIs word =>
    obtain ⟨kindKey, kindPlain, rfl⟩ := kindIs
    obtain ⟨named, plain, rfl⟩ := propertyIs
    obtain ⟨linked, linkPlain, rfl⟩ := linkIs
    cases fault with
    | missingType missing => simp [kindKey] at missing
    | nestedType filled => exact filled kindPlain
    | unsupportedType other => simp [typed] at other
    | unexpectedProperty other => simp [named] at other
    | nestedName _ filled => exact filled plain
    | invalidName _ failed => cases read.symm.trans failed
    | missingRelation _ missing => simp [linked] at missing
    | nestedRelation _ filled => exact filled linkPlain
    | unsupportedRelation _ other => simp [other] at word
    | nestedRegex regex => exact not_both_keys named regex
    | afterRegex regex => exact not_both_keys named regex
    | invalidRegex regex => exact not_both_keys named regex
  | @pattern kind property _ _ _ kindIs typed propertyIs compiled =>
    obtain ⟨kindKey, kindPlain, rfl⟩ := kindIs
    obtain ⟨regex, plain, rfl⟩ := propertyIs
    cases fault with
    | missingType missing => simp [kindKey] at missing
    | nestedType filled => exact filled kindPlain
    | unsupportedType other => simp [typed] at other
    | unexpectedProperty _ other => simp [regex] at other
    | nestedName _ filled => exact filled plain
    | invalidName named => exact not_both_keys named regex
    | missingRelation named => exact not_both_keys named regex
    | nestedRegex _ filled => exact filled plain
    | invalidRegex _ failed => cases compiled.symm.trans failed

/-! ### What is read -/

theorem ofPattern?_ok_iff (text : Text) (f : Filter α) :
    ofPattern? text = .ok f ↔ ∃ p : Pattern α, Pattern.compile? text = .ok p ∧ f = .pattern p := by
  rw [ofPattern?, Text.map_ok_iff]
  simp only [eq_comm]

theorem ofPattern?_error_iff (text : Text) (cause : PatternError) :
    (ofPattern? text : Except PatternError (Filter α)) = .error cause ↔
      (Pattern.compile? text : Except PatternError (Pattern α)) = .error cause :=
  Text.map_error_iff _ _ cause

theorem expectEnd_ok_iff (rest : List Entry) : expectEnd rest = .ok () ↔ rest = [] := by
  cases rest <;> simp [expectEnd]

theorem written_of_ofRelation? {kind property : Entry} {rest : List Entry} {type uri : Text}
    {name : Name} {f : Filter α} (kindIs : IsProperty kind "type" type)
    (typed : type.IsKeyword "name") (propertyIs : IsProperty property "name" uri)
    (known : Name.ofUri? uri = .ok name) (read : ofRelation? name rest = .ok f) :
    Written (kind :: property :: rest) f := by
  cases rest with
  | nil => cases read
  | cons link rest =>
    rw [ofRelation?] at read
    split at read
    next linked =>
      have linked := (link.hasKey_iff "relation").mp linked
      obtain ⟨word, plain, read⟩ := Text.ok_of_bind read
      rw [plainValue_ok_iff] at plain
      split at read
      next => cases read
      next r same =>
        rw [Relation.ofWord?_eq_some_iff] at same
        obtain ⟨_, ended, read⟩ := Text.ok_of_bind read
        obtain rfl := (expectEnd_ok_iff rest).mp ended
        cases read
        exact .relation kindIs typed propertyIs known ⟨linked, plain⟩ same
    next => cases read

theorem written_of_ofProperties? {kind : Entry} {rest : List Entry} {type : Text} {f : Filter α}
    (kindIs : IsProperty kind "type" type) (typed : type.IsKeyword "name")
    (read : ofProperties? rest = .ok f) : Written (kind :: rest) f := by
  cases rest with
  | nil => cases read
  | cons property rest =>
    rw [ofProperties?] at read
    split at read
    next named =>
      have named := (property.hasKey_iff "name").mp named
      obtain ⟨uri, plain, read⟩ := Text.ok_of_bind read
      rw [plainValue_ok_iff] at plain
      split at read
      next => cases read
      next name known => exact written_of_ofRelation? kindIs typed ⟨named, plain⟩ known read
    next =>
      split at read
      next regex =>
        have regex := (property.hasKey_iff "regex").mp regex
        obtain ⟨text, plain, read⟩ := Text.ok_of_bind read
        rw [plainValue_ok_iff] at plain
        obtain ⟨_, ended, read⟩ := Text.ok_of_bind read
        obtain rfl := (expectEnd_ok_iff rest).mp ended
        split at read
        next => cases read
        next compiled =>
          cases read
          obtain ⟨p, accepted, rfl⟩ := (ofPattern?_ok_iff text f).mp compiled
          exact .pattern kindIs typed ⟨regex, plain⟩ accepted
      next => cases read

theorem ofEntries?_ok_iff (entries : List Entry) (f : Filter α) :
    ofEntries? entries = .ok f ↔ Written entries f := by
  constructor
  · intro read
    cases entries with
    | nil => cases read
    | cons kind rest =>
      rw [ofEntries?] at read
      split at read
      next kindKey =>
        have kindKey := (kind.hasKey_iff "type").mp kindKey
        obtain ⟨type, plain, read⟩ := Text.ok_of_bind read
        rw [plainValue_ok_iff] at plain
        split at read
        next typed =>
          have typed := (Text.sameWord_iff type "name").mp typed
          exact written_of_ofProperties? ⟨kindKey, plain⟩ typed read
        next => cases read
      next => cases read
  · intro written
    cases written with
    | @relation kind property link type _ _ _ _ kindIs typed propertyIs known linkIs same =>
      obtain ⟨kindKey, kindPlain⟩ := kindIs
      obtain ⟨named, plain⟩ := propertyIs
      obtain ⟨linked, linkPlain⟩ := linkIs
      rw [← plainValue_ok_iff] at kindPlain plain linkPlain
      rw [← Relation.ofWord?_eq_some_iff] at same
      have kindKey : kind.hasKey typeKey = true := (kind.hasKey_iff "type").mpr kindKey
      have typed : type.sameWord nameType = true := (Text.sameWord_iff type "name").mpr typed
      have named : property.hasKey nameKey = true := (property.hasKey_iff "name").mpr named
      have linked : link.hasKey relationKey = true := (link.hasKey_iff "relation").mpr linked
      simp only [ofEntries?, ofProperties?, ofRelation?, kindKey, kindPlain, typed, named, plain,
        known, linked, linkPlain, same, if_true, bind, Except.bind, expectEnd]
      rfl
    | @pattern kind property type _ _ kindIs typed propertyIs compiled =>
      obtain ⟨kindKey, kindPlain⟩ := kindIs
      obtain ⟨regex, plain⟩ := propertyIs
      -- A name is looked for first, and the key of a regex is not the one of a name.
      rw [← plainValue_ok_iff] at kindPlain plain
      have unnamed : ¬property.hasKey nameKey = true :=
        mt (property.hasKey_iff "name").mp fun named => not_both_keys named regex
      have kindKey : kind.hasKey typeKey = true := (kind.hasKey_iff "type").mpr kindKey
      have typed : type.sameWord nameType = true := (Text.sameWord_iff type "name").mpr typed
      have regex : property.hasKey regexKey = true := (property.hasKey_iff "regex").mpr regex
      have accepted := (ofPattern?_ok_iff _ _).mpr ⟨_, compiled, rfl⟩
      simp only [ofEntries?, ofProperties?, kindKey, kindPlain, typed, unnamed, regex, plain,
        accepted, if_true, bind, Except.bind, expectEnd]
      rfl

/-! ### What is reported -/

theorem firstFault_of_ofRelation? {kind property : Entry} {rest : List Entry} {name : Name}
    {e : ConfigError} (named : property.key.IsKeyword "name")
    (clear : ClearBefore α (kind :: property :: rest) 7)
    (failed : (ofRelation? name rest : Except ConfigError (Filter α)) = .error e) :
    FirstFault α (kind :: property :: rest) e := by
  -- The same as for the properties before: every check rules out one more place.
  cases rest with
  | nil =>
    cases failed
    exact ⟨7, .missingRelation named nofun, clear⟩
  | cons link rest =>
    rw [ofRelation?] at failed
    split at failed
    next linked =>
      have linked := (link.hasKey_iff "relation").mp linked
      have clear := clear.next fun e fault => by
        cases fault with
        | missingRelation _ missing => simp [linked] at missing
        | invalidRegex regex => exact not_both_keys named regex
      rcases Text.error_of_bind failed with nested | ⟨word, plain, failed⟩
      · obtain ⟨filled, rfl⟩ := (plainValue_error_iff link e).mp nested
        exact ⟨8, .nestedRelation named filled, clear⟩
      · obtain ⟨empty, rfl⟩ := (plainValue_ok_iff link word).mp plain
        have clear := clear.next fun e fault => by
          cases fault with
          | nestedRelation _ filled => exact filled empty
        split at failed
        next unknown =>
          cases failed
          rw [Relation.ofWord?_eq_none_iff] at unknown
          exact ⟨9, .unsupportedRelation named unknown, clear⟩
        next r same =>
          have clear := clear.next fun e fault => by
            cases fault with
            | unsupportedRelation _ other =>
              rw [(Relation.ofWord?_eq_none_iff _).mpr other] at same
              cases same
          cases rest with
          | nil => cases failed
          | cons extra rest =>
            cases failed
            exact ⟨10, .afterRelation named, clear⟩
    next missing =>
      have missing := mt (link.hasKey_iff "relation").mpr missing
      cases failed
      exact ⟨7, .missingRelation named (by simpa using missing), clear⟩

theorem ClearBefore.plain {kind property : Entry} {rest : List Entry}
    (clear : ClearBefore α (kind :: property :: rest) 5) (empty : property.block = []) :
    ClearBefore α (kind :: property :: rest) 6 :=
  clear.next fun e fault => by
    cases fault with
    | nestedName _ filled => exact filled empty
    | nestedRegex _ filled => exact filled empty

theorem firstFault_of_expression {kind property : Entry} {rest : List Entry} {e : ConfigError}
    (regex : property.key.IsKeyword "regex") (clear : ClearBefore α (kind :: property :: rest) 6)
    (failed : (do
      expectEnd rest
      match (ofPattern? property.value : Except PatternError (Filter α)) with
      | .error cause => throw (.invalidRegex property.value cause)
      | .ok filter => return filter : Except ConfigError (Filter α)) = .error e) :
    FirstFault α (kind :: property :: rest) e := by
  -- The end comes before the pattern here, but after the relation of a name.
  cases rest with
  | cons extra rest =>
    cases failed
    exact ⟨6, .afterRegex regex, clear⟩
  | nil =>
    have clear := clear.next fun e fault => by
      cases fault with
      | invalidName named => exact not_both_keys named regex
    simp only [expectEnd, bind, Except.bind] at failed
    split at failed
    next cause invalid =>
      cases failed
      exact ⟨7, .invalidRegex regex ((ofPattern?_error_iff _ _).mp invalid), clear⟩
    next => cases failed

theorem firstFault_of_ofProperties? {kind : Entry} {rest : List Entry} {e : ConfigError}
    (clear : ClearBefore α (kind :: rest) 3)
    (failed : (ofProperties? rest : Except ConfigError (Filter α)) = .error e) :
    FirstFault α (kind :: rest) e := by
  -- Each check that is passed rules out the faults of its place, so the next one is the first.
  cases rest with
  | nil =>
    cases failed
    exact ⟨3, .missingProperties, clear⟩
  | cons property rest =>
    have clear := clear.next fun e fault => by cases fault
    rw [ofProperties?] at failed
    split at failed
    next named =>
      have named := (property.hasKey_iff "name").mp named
      have clear := clear.next fun e fault => by
        cases fault with
        | unexpectedProperty unnamed => simp [named] at unnamed
      rcases Text.error_of_bind failed with nested | ⟨uri, plain, failed⟩
      · obtain ⟨filled, rfl⟩ := (plainValue_error_iff property e).mp nested
        exact ⟨5, .nestedName named filled, clear⟩
      · obtain ⟨empty, rfl⟩ := (plainValue_ok_iff property uri).mp plain
        have clear := clear.plain empty
        split at failed
        next cause invalid =>
          cases failed
          exact ⟨6, .invalidName named invalid, clear⟩
        next name known =>
          have clear := clear.next fun e fault => by
            cases fault with
            | invalidName _ invalid => cases known.symm.trans invalid
            | afterRegex regex => exact not_both_keys named regex
          exact firstFault_of_ofRelation? named clear failed
    next unnamed =>
      have unnamed := mt (property.hasKey_iff "name").mpr unnamed
      split at failed
      next regex =>
        have regex := (property.hasKey_iff "regex").mp regex
        have clear := clear.next fun e fault => by
          cases fault with
          | unexpectedProperty _ other => simp [regex] at other
        rcases Text.error_of_bind failed with nested | ⟨text, plain, failed⟩
        · obtain ⟨filled, rfl⟩ := (plainValue_error_iff property e).mp nested
          exact ⟨5, .nestedRegex regex filled, clear⟩
        · obtain ⟨empty, rfl⟩ := (plainValue_ok_iff property text).mp plain
          exact firstFault_of_expression regex (clear.plain empty) failed
      next other =>
        have other := mt (property.hasKey_iff "regex").mpr other
        cases failed
        exact ⟨4, .unexpectedProperty unnamed other, clear⟩

theorem firstFault_of_error {entries : List Entry} {e : ConfigError}
    (failed : (ofEntries? entries : Except ConfigError (Filter α)) = .error e) :
    FirstFault α entries e := by
  have clear : ClearBefore α entries 0 := nofun
  cases entries with
  | nil =>
    cases failed
    exact ⟨0, .missingType nofun, clear⟩
  | cons kind rest =>
    rw [ofEntries?] at failed
    split at failed
    next kindKey =>
      have kindKey := (kind.hasKey_iff "type").mp kindKey
      have clear := clear.next fun e fault => by
        cases fault with
        | missingType missing => simp [kindKey] at missing
      rcases Text.error_of_bind failed with nested | ⟨type, plain, failed⟩
      · obtain ⟨filled, rfl⟩ := (plainValue_error_iff kind e).mp nested
        exact ⟨1, .nestedType filled, clear⟩
      · obtain ⟨empty, rfl⟩ := (plainValue_ok_iff kind type).mp plain
        have clear := clear.next fun e fault => by
          cases fault with
          | nestedType filled => exact filled empty
        split at failed
        next typed =>
          have typed := (Text.sameWord_iff kind.value "name").mp typed
          have clear := clear.next fun e fault => by
            cases fault with
            | unsupportedType other => simp [typed] at other
          exact firstFault_of_ofProperties? clear failed
        next other =>
          have other := mt (Text.sameWord_iff kind.value "name").mpr other
          cases failed
          exact ⟨2, .unsupportedType other, clear⟩
    next missing =>
      have missing := mt (kind.hasKey_iff "type").mpr missing
      cases failed
      exact ⟨0, .missingType (by simpa using missing), clear⟩

theorem ofEntries?_error_iff (entries : List Entry) (e : ConfigError) :
    (ofEntries? entries : Except ConfigError (Filter α)) = .error e ↔ FirstFault α entries e := by
  constructor
  · exact firstFault_of_error
  · intro first
    cases read : (ofEntries? entries : Except ConfigError (Filter α)) with
    | ok f =>
      -- What is written as a filter has no fault at any place.
      obtain ⟨place, fault, -⟩ := first
      exact absurd fault (((ofEntries?_ok_iff entries f).mp read).not_fault place e)
    | error e' => rw [(firstFault_of_error read).unique first]

end Filter

namespace Policy

variable {α : Type} [ComponentLanguage α]

/-- An entry of a policy with its filter. -/
def Written (entry : Entry) (f : Filter α) : Prop :=
  entry.key.IsKeyword "filter" ∧ Filter.Written entry.block f

variable (α) in
/-- What is wrong with an entry of a policy. -/
inductive Refused : Entry → ConfigError → Prop
  | unexpected {entry : Entry} :
      ¬entry.key.IsKeyword "filter" → Refused entry (.unexpectedEntry entry.key)
  | filter {entry : Entry} {e : ConfigError} :
      entry.key.IsKeyword "filter" → Filter.FirstFault α entry.block e → Refused entry e

theorem filterOf?_ok_iff (entry : Entry) (f : Filter α) :
    filterOf? entry = .ok f ↔ Written entry f := by
  rw [filterOf?, Written]
  split
  next keyed =>
    have keyed := (entry.hasKey_iff "filter").mp keyed
    simp only [keyed, true_and, Filter.ofEntries?_ok_iff]
  next other =>
    have other := mt (entry.hasKey_iff "filter").mpr other
    simp [other]

theorem filterOf?_error_iff (entry : Entry) (e : ConfigError) :
    (filterOf? entry : Except ConfigError (Filter α)) = .error e ↔ Refused α entry e := by
  rw [filterOf?]
  split
  next keyed =>
    have keyed := (entry.hasKey_iff "filter").mp keyed
    rw [Filter.ofEntries?_error_iff]
    constructor
    · exact .filter keyed
    · rintro (other | ⟨-, first⟩)
      · simp [keyed] at other
      · exact first
  next other =>
    have other := mt (entry.hasKey_iff "filter").mpr other
    constructor
    · intro failed
      cases failed
      exact .unexpected other
    · rintro (_ | keyed)
      · rfl
      · simp [other] at keyed

theorem ofEntries?_ok_iff (entries : List Entry) (policy : Policy α) :
    ofEntries? entries = .ok policy ↔ List.Forall₂ Written entries policy.filters := by
  obtain ⟨filters⟩ := policy
  rw [ofEntries?, Text.map_ok_iff]
  simp only [mk.injEq, exists_eq_right, Text.mapM_ok_iff, filterOf?_ok_iff]

theorem ofEntries?_error_iff (entries : List Entry) (e : ConfigError) :
    (ofEntries? entries : Except ConfigError (Policy α)) = .error e ↔
      ∃ before bad after, entries = before ++ bad :: after ∧
        (∀ entry ∈ before, ∃ f : Filter α, Written entry f) ∧ Refused α bad e := by
  rw [ofEntries?, Text.map_error_iff, Text.mapM_error_iff]
  simp only [filterOf?_ok_iff, filterOf?_error_iff]

end Policy

/-- A filter is read exactly if it is written as one, otherwise its first fault is reported. A
policy is read exactly if each of its entries is a filter, otherwise the first bad entry is
reported. -/
theorem filter_grammar (α : Type) [ComponentLanguage α] (entries : List Entry) :
    (∀ f : Filter α, Filter.ofEntries? entries = .ok f ↔ Filter.Written entries f) ∧
    (∀ e, (Filter.ofEntries? entries : Except ConfigError (Filter α)) = .error e ↔
      Filter.FirstFault α entries e) ∧
    (∀ policy : Policy α, Policy.ofEntries? entries = .ok policy ↔
      List.Forall₂ Policy.Written entries policy.filters) ∧
    ∀ e, (Policy.ofEntries? entries : Except ConfigError (Policy α)) = .error e ↔
      ∃ before bad after, entries = before ++ bad :: after ∧
        (∀ entry ∈ before, ∃ f : Filter α, Policy.Written entry f) ∧ Policy.Refused α bad e :=
  ⟨Filter.ofEntries?_ok_iff entries, Filter.ofEntries?_error_iff entries,
    Policy.ofEntries?_ok_iff entries, Policy.ofEntries?_error_iff entries⟩

end TrustSchema
