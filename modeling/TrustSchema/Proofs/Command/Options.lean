import Mathlib.Data.List.Basic
import Mathlib.Logic.Relation
import TrustSchema.Command.Run

/-!
Options on a command line. However the options of a command and the one for the settings are mixed,
each pass finds what is meant for it: of an option with a value the last value counts, and of a flag
whether it is there. So the order of different options makes no difference, nor does their spelling.
-/

namespace TrustSchema.Command

theorem isConfigOption_iff (word : Text) :
    isConfigOption word = true ↔ word ∈ ["--config".toList, "-c".toList] := by
  rw [isConfigOption, Bool.or_eq_true, decide_eq_true_eq, decide_eq_true_eq, List.mem_cons,
    List.mem_singleton]

theorem splitConfig_go_word {word : Text} (other : isConfigOption word = false)
    (path : Option Text) (rest : List Text) :
    splitConfig.go path (word :: rest) =
      (splitConfig.go path rest).map fun (last, others) => (last, word :: others) := by
  rw [splitConfig.go.eq_def]
  simp only [other, Bool.false_eq_true, if_false]

/-- The options of a command: how each is spelled, and whether a value comes after it. -/
class CommandOptions (ω : Type) [CommandOption ω] where
  spellings : ω → List Text
  hasValue : ω → Bool
  /-- None is spelled like the option for the settings. -/
  apart : ∀ option, ∀ word ∈ spellings option, isConfigOption word = false
  /-- The spellings of an option name it. -/
  named : ∀ option, ∀ word ∈ spellings option, CommandOption.ofWord? word = some option
  valued : ∀ option : ω, CommandOption.hasValue option = hasValue option

/-- The options on the line of a command. -/
inductive LineOption (ω : Type) where
  | settings
  | own (option : ω)
  deriving DecidableEq

section lines

variable {ω : Type} [CommandOption ω] [CommandOptions ω]

def LineOption.spellings : LineOption ω → List Text
  | settings => ["--config".toList, "-c".toList]
  | own option => CommandOptions.spellings option

def LineOption.hasValue : LineOption ω → Bool
  | settings => true
  | own option => CommandOptions.hasValue option

/-- An option as it is given, with the value after it if it has one. -/
structure Given (ω : Type) [CommandOption ω] [CommandOptions ω] where
  option : LineOption ω
  spelling : Text
  value : Option Text
  spelled : spelling ∈ option.spellings
  valued : value.isSome = option.hasValue

/-- The words of an option and its value. -/
def Given.words (g : Given ω) : List Text :=
  g.spelling :: g.value.toList

variable [DecidableEq ω]

/-- The words of the options that are not for the settings. -/
def ownWords (given : List (Given ω)) : List Text :=
  (given.filter fun g => g.option ≠ .settings).flatMap Given.words

/-- The values that are given for an option. -/
def valuesOf (option : LineOption ω) (given : List (Given ω)) : List Text :=
  given.filterMap fun g => if g.option = option then g.value else none

/-- Whether an option is given. -/
def occurs (option : LineOption ω) (given : List (Given ω)) : Bool :=
  given.any fun g => g.option = option

theorem ownWords_append (front back : List (Given ω)) :
    ownWords (front ++ back) = ownWords front ++ ownWords back := by
  rw [ownWords, List.filter_append, List.flatMap_append, ownWords, ownWords]

theorem valuesOf_append (option : LineOption ω) (front back : List (Given ω)) :
    valuesOf option (front ++ back) = valuesOf option front ++ valuesOf option back :=
  List.filterMap_append

theorem occurs_append (option : LineOption ω) (front back : List (Given ω)) :
    occurs option (front ++ back) = (occurs option front || occurs option back) :=
  List.any_append

/-! ### The settings -/

/-- Whether no value of an option of the command looks like the option for the settings. -/
def Given.Plain (g : Given ω) : Prop :=
  g.option ≠ .settings → ∀ value ∈ g.value, isConfigOption value = false

instance (g : Given ω) : Decidable g.Plain :=
  inferInstanceAs (Decidable (g.option ≠ .settings → ∀ value ∈ g.value, _))

/-- An option is passed over with its value, or its value is the last path so far. -/
theorem splitConfig_go_given {g : Given ω} (plain : g.Plain) (path : Option Text)
    (rest : List Text) :
    splitConfig.go path (g.words ++ rest) =
      (splitConfig.go ((valuesOf .settings [g]).getLast?.or path) rest).map
        fun (last, others) => (last, ownWords [g] ++ others) := by
  obtain ⟨option, spelling, value, spelled, valued⟩ := g
  -- The settings are taken with their path, and the words of another option pass one by one.
  cases option with
  | settings =>
    obtain ⟨last, rfl⟩ := Option.isSome_iff_exists.mp valued
    have named : isConfigOption spelling = true := (isConfigOption_iff spelling).mpr spelled
    change splitConfig.go path (spelling :: last :: rest) =
      (splitConfig.go (some last) rest).map id
    rw [splitConfig.go.eq_def]
    simp only [named, if_true]
    cases splitConfig.go (some last) rest <;> rfl
  | own option =>
    have other : isConfigOption spelling = false := CommandOptions.apart option spelling spelled
    cases value with
    | none => exact splitConfig_go_word other path rest
    | some value =>
      have apart : isConfigOption value = false := plain nofun value rfl
      change splitConfig.go path (spelling :: value :: rest) =
        (splitConfig.go path rest).map fun (last, others) => (last, spelling :: value :: others)
      rw [splitConfig_go_word other, splitConfig_go_word apart]
      cases splitConfig.go path rest <;> rfl

theorem splitConfig_go_append {given : List (Given ω)} (plain : ∀ g ∈ given, g.Plain)
    (path : Option Text) (rest : List Text) :
    splitConfig.go path (given.flatMap Given.words ++ rest) =
      (splitConfig.go ((valuesOf .settings given).getLast?.or path) rest).map
        fun (last, others) => (last, ownWords given ++ others) := by
  induction given generalizing path with
  | nil =>
    change splitConfig.go path rest = (splitConfig.go path rest).map id
    cases splitConfig.go path rest <;> rfl
  | cons g given ih =>
    rw [List.forall_mem_cons] at plain
    have values := valuesOf_append .settings [g] given
    have words := ownWords_append [g] given
    rw [List.singleton_append] at values words
    rw [List.flatMap_cons, List.append_assoc, splitConfig_go_given plain.1, ih plain.2, values,
      List.getLast?_append, Option.or_assoc, words]
    cases splitConfig.go _ rest <;> simp [Except.map]

/-! ### The options of the command -/

namespace Arguments

/-- What is known of the options after some more are given. -/
def after (known : Arguments ω) (given : List (Given ω)) : Arguments ω where
  value option := (valuesOf (.own option) given).getLast?.or (known.value option)
  present option := occurs (.own option) given || known.present option

theorem after_append (known : Arguments ω) (front back : List (Given ω)) :
    known.after (front ++ back) = (known.after front).after back := by
  simp only [after, valuesOf_append, occurs_append, List.getLast?_append, Option.or_assoc,
    Bool.or_assoc, Bool.or_left_comm]

theorem after_own (known : Arguments ω) {g : Given ω} {option : ω} (own : g.option = .own option) :
    known.after [g] = known.add option g.value := by
  have same (o : ω) : g.option = .own o ↔ o = option := by
    rw [own, LineOption.own.injEq, eq_comm]
  simp only [after, add, valuesOf, occurs, List.filterMap_cons, List.filterMap_nil, List.any_cons,
    List.any_nil, Bool.or_false, same, Arguments.mk.injEq, and_true]
  funext o
  by_cases this : o = option
  · simp only [if_pos this]
    cases g.value <;> rfl
  · simp only [if_neg this]
    rfl

/-- The words of an option are taken together. -/
theorem readFrom_given (known : Arguments ω) (g : Given ω) (rest : List Text) :
    readFrom known (ownWords [g] ++ rest) = readFrom (known.after [g]) rest := by
  obtain ⟨option, spelling, value, spelled, valued⟩ := g
  cases option with
  | settings => rfl
  | own option =>
    rw [known.after_own rfl]
    have named := CommandOptions.named option spelling spelled
    have takes : CommandOption.hasValue option = value.isSome :=
      (CommandOptions.valued option).trans valued.symm
    change readFrom known (spelling :: (value.toList ++ [] ++ rest)) = _
    rw [List.append_nil, readFrom.eq_def]
    simp only [named, takes]
    cases value <;> rfl

theorem readFrom_ownWords (known : Arguments ω) (given : List (Given ω)) :
    readFrom known (ownWords given) = .ok (known.after given) := by
  induction given generalizing known with
  | nil => rfl
  | cons g given ih =>
    rw [← List.singleton_append, ownWords_append, readFrom_given, ih, after_append]

theorem read_ownWords (given : List (Given ω)) :
    read (ownWords given) = .ok (nothing.after given) :=
  readFrom_ownWords nothing given

end Arguments

/-! ### Order -/

/-- Options next to one another change places unless they are the same, or one is spelled in another
way. -/
inductive Rearranged : List (Given ω) → List (Given ω) → Prop
  | swap (front back : List (Given ω)) {a b : Given ω} : a.option ≠ b.option →
      Rearranged (front ++ a :: b :: back) (front ++ b :: a :: back)
  | respell (front back : List (Given ω)) {a b : Given ω} : a.option = b.option →
      a.value = b.value → Rearranged (front ++ a :: back) (front ++ b :: back)

theorem valuesOf_rearranged {given other : List (Given ω)}
    (rearranged : Relation.EqvGen Rearranged given other) (option : LineOption ω) :
    valuesOf option given = valuesOf option other := by
  induction rearranged with
  | refl => rfl
  | symm _ _ _ ih => exact ih.symm
  | trans _ _ _ _ _ ih ih' => exact ih.trans ih'
  | rel _ _ step =>
    cases step with
    | @swap front back a b different =>
      -- At most one of the two is the option in question.
      by_cases first : a.option = option
      · have second : b.option ≠ option := fun same => different (first.trans same.symm)
        simp only [valuesOf, List.filterMap_append, List.filterMap_cons, if_neg second]
      · simp only [valuesOf, List.filterMap_append, List.filterMap_cons, if_neg first]
    | respell front back same value =>
      simp only [valuesOf, List.filterMap_append, List.filterMap_cons, same, value]

theorem occurs_rearranged {given other : List (Given ω)}
    (rearranged : Relation.EqvGen Rearranged given other) (option : LineOption ω) :
    occurs option given = occurs option other := by
  induction rearranged with
  | refl => rfl
  | symm _ _ _ ih => exact ih.symm
  | trans _ _ _ _ _ ih ih' => exact ih.trans ih'
  | rel _ _ step =>
    cases step with
    | swap front back =>
      simp only [occurs, List.any_append, List.any_cons, Bool.or_left_comm]
    | respell front back same =>
      simp only [occurs, List.any_append, List.any_cons, same]

theorem Arguments.read_rearranged {given other : List (Given ω)}
    (rearranged : Relation.EqvGen Rearranged given other) :
    (Arguments.read (ownWords given) : Except Failure (Arguments ω)) =
      Arguments.read (ownWords other) := by
  rw [Arguments.read_ownWords, Arguments.read_ownWords]
  simp only [Arguments.after, valuesOf_rearranged rearranged, occurs_rearranged rearranged]

/-! ### Lines -/

variable (ω) in
/-- The line of a command, given by what stands before the command and what comes after it. The
settings can be anywhere, and the options of the command only after it. -/
structure Line where
  front : List (Given ω)
  items : List (Given ω)
  front_settings : ∀ g ∈ front, g.option = .settings
  items_plain : ∀ g ∈ items, g.Plain

namespace Line

def given (l : Line ω) : List (Given ω) :=
  l.front ++ l.items

def words (l : Line ω) (command : Text) : List Text :=
  l.front.flatMap Given.words ++ command :: l.items.flatMap Given.words

theorem splitConfig_words (l : Line ω) {command : Text}
    (ordinary : isConfigOption command = false) :
    splitConfig (l.words command) =
      .ok ((valuesOf .settings l.given).getLast?, command :: ownWords l.given) := by
  have front_plain : ∀ g ∈ l.front, g.Plain :=
    fun g member own => absurd (l.front_settings g member) own
  -- Nothing but the settings stands before the command.
  have front_own : ownWords l.front = [] := by
    rw [ownWords, List.filter_eq_nil_iff.mpr]
    · rfl
    · intro g member
      simpa using l.front_settings g member
  rw [splitConfig, words, splitConfig_go_append front_plain, splitConfig_go_word ordinary,
    ← List.append_nil (l.items.flatMap Given.words), splitConfig_go_append l.items_plain, given,
    valuesOf_append, ownWords_append, front_own, List.getLast?_append, Option.or_none]
  simp [splitConfig.go, Except.map]

end Line

end lines

/-! ### Commands -/

instance : CommandOptions FilterOption where
  spellings
    | .policy => ["--policy".toList, "-p".toList]
    | .name => ["--name".toList, "-n".toList]
    | .interest => ["--interest".toList]
    | .json => ["--json".toList]
  hasValue
    | .policy | .name => true
    | .interest | .json => false
  apart := by
    intro option
    cases option <;> decide
  named := by
    intro option
    cases option <;> decide
  valued := by
    intro option
    cases option <;> rfl

instance : CommandOptions KeyOption where
  spellings
    | .input => ["--input".toList, "-i".toList]
    | .base64 => ["--base64".toList]
    | .json => ["--json".toList]
  hasValue
    | .input => true
    | .base64 | .json => false
  apart := by
    intro option
    cases option <;> decide
  named := by
    intro option
    cases option <;> decide
  valued := by
    intro option
    cases option <;> rfl

theorem FilterArguments.read_ownWords (given : List (Given FilterOption)) :
    read (ownWords given) = .ok
      { policy := (valuesOf (.own .policy) given).getLast?
        name := (valuesOf (.own .name) given).getLast?
        interest := occurs (.own .interest) given
        json := occurs (.own .json) given } := by
  rw [read, Arguments.read_ownWords]
  simp only [Except.map, Arguments.after, Arguments.nothing, Option.or_none, Bool.or_false]

theorem KeyArguments.read_ownWords (given : List (Given KeyOption)) :
    read (ownWords given) = .ok
      { input := (valuesOf (.own .input) given).getLast?
        base64 := occurs (.own .base64) given
        json := occurs (.own .json) given } := by
  rw [read, Arguments.read_ownWords]
  simp only [Except.map, Arguments.after, Arguments.nothing, Option.or_none, Bool.or_false]

section runs

variable {m : Type → Type} [Monad m] (read : Text → m (Except ReadFault Bytes))

theorem runCommand_filter (settings : Settings) {own other : List Text}
    (same : FilterArguments.read own = FilterArguments.read other) :
    runCommand read settings ("filter".toList :: own) =
      runCommand read settings ("filter".toList :: other) := by
  rw [runCommand, runCommand, if_pos rfl, if_pos rfl, same]

theorem runCommand_key (settings : Settings) {own other : List Text}
    (same : KeyArguments.read own = KeyArguments.read other) :
    runCommand read settings ("key".toList :: own) =
      runCommand read settings ("key".toList :: other) := by
  have apart : "key".toList ≠ "filter".toList := by decide
  rw [runCommand, runCommand, if_neg apart, if_neg apart, if_pos rfl, if_pos rfl, same]

/-- What the words of a command are read as is all that a run knows of them. -/
theorem run_rearranged {ω κ : Type} [CommandOption ω] [CommandOptions ω] [DecidableEq ω]
    {command : Text}
    (ordinary : isConfigOption command = false) {readArguments : List Text → Except Failure κ}
    (known : ∀ settings {own other}, readArguments own = readArguments other →
      runCommand read settings (command :: own) = runCommand read settings (command :: other))
    {l k : Line ω} (rearranged : Relation.EqvGen Rearranged l.given k.given)
    (same : readArguments (ownWords l.given) = readArguments (ownWords k.given)) :
    (splitConfig (l.words command)).map Prod.fst = (splitConfig (k.words command)).map Prod.fst ∧
      readArguments (ownWords l.given) = readArguments (ownWords k.given) ∧
      run read (l.words command) = run read (k.words command) := by
  have split := l.splitConfig_words ordinary
  have splitOther := k.splitConfig_words ordinary
  rw [← valuesOf_rearranged rearranged] at splitOther
  refine ⟨?_, same, ?_⟩
  · rw [split, splitOther]
    rfl
  · rw [run, run, split, splitOther]
    simp only [known _ same]

/-- From the line of a command the first pass takes the last path for the settings and leaves the
other words in their order, and the second one takes the last value of each option and the flags
that are there. So lines with the same options of each kind in the same order give the same
settings, the same arguments and the same run. -/
theorem options_inAnyOrder :
    (∀ l : Line FilterOption,
      splitConfig (l.words "filter".toList) =
        .ok ((valuesOf .settings l.given).getLast?, "filter".toList :: ownWords l.given) ∧
      FilterArguments.read (ownWords l.given) = .ok
        { policy := (valuesOf (.own .policy) l.given).getLast?
          name := (valuesOf (.own .name) l.given).getLast?
          interest := occurs (.own .interest) l.given
          json := occurs (.own .json) l.given }) ∧
    (∀ l : Line KeyOption,
      splitConfig (l.words "key".toList) =
        .ok ((valuesOf .settings l.given).getLast?, "key".toList :: ownWords l.given) ∧
      KeyArguments.read (ownWords l.given) = .ok
        { input := (valuesOf (.own .input) l.given).getLast?
          base64 := occurs (.own .base64) l.given
          json := occurs (.own .json) l.given }) ∧
    (∀ l k : Line FilterOption, Relation.EqvGen Rearranged l.given k.given →
      (splitConfig (l.words "filter".toList)).map Prod.fst =
        (splitConfig (k.words "filter".toList)).map Prod.fst ∧
      FilterArguments.read (ownWords l.given) = FilterArguments.read (ownWords k.given) ∧
      run read (l.words "filter".toList) = run read (k.words "filter".toList)) ∧
    (∀ l k : Line KeyOption, Relation.EqvGen Rearranged l.given k.given →
      (splitConfig (l.words "key".toList)).map Prod.fst =
        (splitConfig (k.words "key".toList)).map Prod.fst ∧
      KeyArguments.read (ownWords l.given) = KeyArguments.read (ownWords k.given) ∧
      run read (l.words "key".toList) = run read (k.words "key".toList)) := by
  refine ⟨fun l => ⟨l.splitConfig_words rfl, FilterArguments.read_ownWords l.given⟩,
    fun l => ⟨l.splitConfig_words rfl, KeyArguments.read_ownWords l.given⟩, ?_, ?_⟩
  · intro l k rearranged
    exact run_rearranged read rfl (runCommand_filter read) rearranged
      (congrArg (Except.map _) (Arguments.read_rearranged rearranged))
  · intro l k rearranged
    exact run_rearranged read rfl (runCommand_key read) rearranged
      (congrArg (Except.map _) (Arguments.read_rearranged rearranged))

/-- A line with values that look like options. -/
def lookalikeLine : Line FilterOption where
  front := [⟨.settings, "-c".toList, some "filter".toList, by decide, rfl⟩]
  items :=
    [⟨.own .name, "-n".toList, some "--json".toList, by decide, rfl⟩,
     ⟨.settings, "--config".toList, some "-c".toList, by decide, rfl⟩,
     ⟨.own .interest, "--interest".toList, none, by decide, rfl⟩]
  front_settings := by decide
  items_plain := by decide

theorem options_inAnyOrder_lookalikeLine :
    splitConfig (["-c", "filter", "filter", "-n", "--json", "--config", "-c", "--interest"].map
      String.toList) =
        .ok (some "-c".toList, ["filter", "-n", "--json", "--interest"].map String.toList) ∧
    FilterArguments.read (["-n", "--json", "--interest"].map String.toList) =
      .ok ⟨none, some "--json".toList, true, false⟩ := by
  exact (options_inAnyOrder (m := Id) fun _ => .error .notFound).1 lookalikeLine

end runs

end TrustSchema.Command
