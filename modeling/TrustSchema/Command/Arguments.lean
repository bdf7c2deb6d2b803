import TrustSchema.Command.Error

/-!
The arguments of the command line. They are read in two passes: the first takes out the option for
the settings wherever it stands, and the second reads the options of the command. Each pass takes
the word after an option that has a value as that value, whatever it looks like.
-/

namespace TrustSchema.Command

/-- Whether a word is the option for the settings. -/
def isConfigOption (word : Text) : Bool :=
  word = "--config".toList || word = "-c".toList

/-- The last path that is given for the settings, if there is one, and the other words in order. -/
def splitConfig (words : List Text) : Except Failure (Option Text × List Text) :=
  go none words
where
  /-- The same, where `path` is the last path so far. -/
  go (path : Option Text) : List Text → Except Failure (Option Text × List Text)
    | [] => .ok (path, [])
    | word :: rest =>
      if isConfigOption word then
        match rest with
        | [] => .error .configWithoutPath
        | path :: rest => go (some path) rest
      else (go path rest).map fun (last, others) => (last, word :: others)

/-- The options of a command: the one that a word names, and whether a value comes after it. -/
class CommandOption (ω : Type) where
  ofWord? : Text → Option ω
  hasValue : ω → Bool

/-- What is known of the options of a command. -/
structure Arguments (ω : Type) where
  /-- The last value of an option. -/
  value : ω → Option Text
  /-- Whether an option is there. -/
  present : ω → Bool

namespace Arguments

variable {ω : Type}

/-- No options. -/
def nothing : Arguments ω := ⟨fun _ => none, fun _ => false⟩

variable [DecidableEq ω]

/-- One option more, with the value after it if it has one. -/
def add (known : Arguments ω) (option : ω) (value : Option Text) : Arguments ω where
  value o := if o = option then value.or (known.value o) else known.value o
  present o := o = option || known.present o

variable [CommandOption ω]

/-- Reads the options in a list of words, after those that are known already. -/
def readFrom (known : Arguments ω) : List Text → Except Failure (Arguments ω)
  | [] => .ok known
  | word :: rest =>
    match CommandOption.ofWord? word with
    | none => .error (.unknownOption word)
    | some option =>
      if CommandOption.hasValue option then
        match rest with
        | [] => .error (.withoutValue word)
        | value :: rest => readFrom (known.add option (some value)) rest
      else readFrom (known.add option none) rest

/-- The options in a list of words. -/
def read (words : List Text) : Except Failure (Arguments ω) :=
  readFrom nothing words

end Arguments

/-! ## The command `filter` -/

/-- An option of the command `filter`. -/
inductive FilterOption where
  | policy
  | name
  | interest
  | json
  deriving DecidableEq, Repr

instance : CommandOption FilterOption where
  ofWord? word :=
    if word = "--policy".toList ∨ word = "-p".toList then some .policy
    else if word = "--name".toList ∨ word = "-n".toList then some .name
    else if word = "--interest".toList then some .interest
    else if word = "--json".toList then some .json
    else none
  hasValue
    | .policy | .name => true
    | .interest | .json => false

/-- The options of the command `filter`. -/
structure FilterArguments where
  policy : Option Text
  name : Option Text
  interest : Bool
  json : Bool
  deriving DecidableEq, Repr

/-- The options in a list of words. Of an option that is repeated the last value counts. -/
def FilterArguments.read (words : List Text) : Except Failure FilterArguments :=
  (Arguments.read words).map fun known : Arguments FilterOption =>
    ⟨known.value .policy, known.value .name, known.present .interest, known.present .json⟩

/-! ## The command `key` -/

/-- An option of the command `key`. -/
inductive KeyOption where
  | input
  | base64
  | json
  deriving DecidableEq, Repr

instance : CommandOption KeyOption where
  ofWord? word :=
    if word = "--input".toList ∨ word = "-i".toList then some .input
    else if word = "--base64".toList then some .base64
    else if word = "--json".toList then some .json
    else none
  hasValue
    | .input => true
    | .base64 | .json => false

/-- The options of the command `key`. -/
structure KeyArguments where
  input : Option Text
  base64 : Bool
  json : Bool
  deriving DecidableEq, Repr

/-- The options in a list of words. Of an option that is repeated the last value counts. -/
def KeyArguments.read (words : List Text) : Except Failure KeyArguments :=
  (Arguments.read words).map fun known : Arguments KeyOption =>
    ⟨known.value .input, known.present .base64, known.present .json⟩

end TrustSchema.Command
