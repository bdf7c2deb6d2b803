import TrustSchema.Command.Arguments
import TrustSchema.Command.Report

/-!
A run of the tool: from the words of the command line to what is printed and the exit code. How
files are read is left open, so that a run can be made on the files of the system or on files in
memory.
-/

namespace TrustSchema.Command

/-- What a run prints, and its exit code. -/
structure Outcome where
  exit : Nat
  stdout : Text
  stderr : Text
  deriving DecidableEq, Repr

namespace Outcome

/-- The outcome of a run that succeeds. -/
def success (stdout : Text) : Outcome := ⟨0, stdout, []⟩

/-- The outcome of a run that fails after printing something. -/
def failure (stdout : Text) (f : Failure) : Outcome :=
  ⟨1, stdout, "Error: ".toList ++ f.message.toList ++ ['\n']⟩

end Outcome

/-- What a run gives: what it prints, also when it fails. -/
abbrev Result := Text × Except Failure Unit

/-- A run that prints a text and succeeds. -/
def printed (text : Text) : Result := (text, .ok ())

/-- A run that fails before it prints. -/
def failed (f : Failure) : Result := ([], .error f)

/-- The outcome of a run. -/
def Outcome.ofResult : Result → Outcome
  | (stdout, .ok ()) => success stdout
  | (stdout, .error f) => failure stdout f

section

variable {m : Type → Type} [Monad m] (read : Text → m (Except ReadFault Bytes))

/-- The settings in the file with a given path, or the defaults without a path. -/
def loadSettings (path : Option Text) : m (Except Failure Settings) :=
  match path with
  | none => pure (.ok Settings.default)
  | some path => do
    let content ← read path
    return match content.bind textOfBytes with
      | .error cause => .error (.configUnreadable path cause)
      | .ok text => (Settings.ofText? text).mapError (.configInvalid path)

/-- The report on a policy text and a name. -/
def policyReport (path uri : Text) (interest : Bool) (text : Text) : Except Failure PolicyReport :=
  match (Policy.ofText? text : Except ConfigError (Policy Regex)) with
  | .error cause => .error (.policyInvalid path cause)
  | .ok policy =>
    match Name.ofUri? uri with
    | .error cause => .error (.nameInvalid uri cause)
    | .ok name => .ok (.of policy ⟨if interest then .interest else .data, name⟩)

/-- The command `filter`: which filters of a policy cover a packet. -/
def runFilter (settings : Settings) (arguments : FilterArguments) : m Result :=
  match arguments.policy.or settings.policyPath, arguments.name with
  | none, _ => pure (failed (.missingOption "--policy".toList))
  | some _, none => pure (failed (.missingOption "--name".toList))
  | some path, some uri => do
    let content ← read path
    return match content.bind textOfBytes with
      | .error cause => failed (.policyUnreadable path cause)
      | .ok text =>
        match policyReport path uri arguments.interest text with
        | .error f => failed f
        | .ok report =>
          printed (if arguments.json then report.toJson.pretty 0 ++ ['\n'] else report.toText)

/-- Whether an octet is white space of ASCII, which may stand anywhere in base64 text. -/
def isBlankOctet (b : UInt8) : Bool :=
  b = 0x20 || b = 0x09 || b = 0x0A || b = 0x0C || b = 0x0D

/-- The octets that base64 text with white space writes. -/
def decodeBase64Text (content : Bytes) : Except Failure Bytes :=
  (Codec.Base64.decode (content.filter fun b => !isBlankOctet b)).mapError .inputNotBase64

/-- The report on the octets of a key, or on base64 text of them. -/
def keyReport (base64 : Bool) (content : Bytes) : Except Failure KeyReport := do
  let raw ← if base64 then decodeBase64Text content else .ok content
  match Key.Blob.decode raw with
  | .error cause => throw (.keyInvalid cause)
  | .ok key => return .of key

/-- The command `key`: what a key is. -/
def runKey (arguments : KeyArguments) : m Result :=
  match arguments.input with
  | none => pure (failed (.missingOption "--input".toList))
  | some path => do
    let content ← read path
    return match content with
      | .error cause => failed (.inputUnreadable path cause)
      | .ok bytes =>
        match keyReport arguments.base64 bytes with
        | .error f => failed f
        | .ok report =>
          printed (if arguments.json then report.toJson.pretty 0 ++ ['\n'] else report.toText)

/-- The words that ask for help. -/
def isHelp (word : Text) : Bool :=
  word = "help".toList || word = "--help".toList || word = "-h".toList

/-- Runs the command that the first word names. -/
def runCommand (settings : Settings) (words : List Text) : m Result :=
  match words with
  | [] => pure (usage, .error .missingCommand)
  | command :: rest =>
    if command = "filter".toList then
      match FilterArguments.read rest with
      | .error f => pure (failed f)
      | .ok arguments => runFilter read settings arguments
    else if command = "key".toList then
      match KeyArguments.read rest with
      | .error f => pure (failed f)
      | .ok arguments => runKey read arguments
    else if isHelp command then pure (printed usage)
    else pure (usage, .error (.unknownCommand command))

/-- Runs the tool on the words of a command line. -/
def run (words : List Text) : m Outcome :=
  match splitConfig words with
  | .error f => pure (.ofResult (failed f))
  | .ok (path, rest) => do
    match ← loadSettings read path with
    | .error f => return .ofResult (failed f)
    | .ok settings => return .ofResult (← runCommand read settings rest)

end

/-- Runs the tool on files in memory. -/
def runIn (files : Directory) (words : List Text) : Outcome :=
  Id.run (run (fun path => pure (files.read path)) words)

end TrustSchema.Command
