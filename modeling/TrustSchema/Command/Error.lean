import TrustSchema.Codec.Base64
import TrustSchema.Command.Files
import TrustSchema.Filter.Error
import TrustSchema.Key.Blob
import TrustSchema.Settings

/-!
Why a run of the tool fails. A report names what was tried and then each cause behind it.
-/

namespace TrustSchema.Command

/-- Why a run fails. -/
inductive Failure where
  | configWithoutPath
  | configUnreadable (path : Text) (cause : ReadFault)
  | configInvalid (path : Text) (cause : SettingsError)
  | missingCommand
  | unknownCommand (word : Text)
  | unknownOption (word : Text)
  /-- Nothing follows an option that has a value. -/
  | withoutValue (option : Text)
  /-- An option that the command needs is not there. -/
  | missingOption (option : Text)
  | policyUnreadable (path : Text) (cause : ReadFault)
  | policyInvalid (path : Text) (cause : ConfigError)
  | nameInvalid (uri : Text) (cause : NameError)
  | inputUnreadable (path : Text) (cause : ReadFault)
  | inputNotBase64 (cause : Codec.Base64.Fault)
  | keyInvalid (cause : Key.KeyError)
  deriving DecidableEq, Repr

namespace Failure

/-- The report of a failure and of each cause behind it. -/
def chain : Failure → List String
  | configWithoutPath => ["--config was provided without a path"]
  | configUnreadable path cause =>
    ["Failed to load config " ++ String.ofList path, "IO error: " ++ cause.message, cause.message]
  | configInvalid path cause =>
    ["Failed to load config " ++ String.ofList path, "Settings error: " ++ cause.message,
      cause.message]
  | missingCommand => ["Missing command"]
  | unknownCommand word => ["Unknown command " ++ String.ofList word]
  | unknownOption word => ["Unknown option " ++ String.ofList word]
  | withoutValue option => [String.ofList option ++ " was provided without a value"]
  | missingOption option => ["Missing " ++ String.ofList option ++ " argument"]
  | policyUnreadable path cause =>
    ["Failed to read policy " ++ String.ofList path, cause.message]
  | policyInvalid path cause =>
    ["Failed to compile policy " ++ String.ofList path, cause.message] ++ cause.cause?.toList
  | nameInvalid uri cause => ["Invalid name " ++ String.ofList uri, cause.message]
  | inputUnreadable path cause => ["Failed to read " ++ String.ofList path, cause.message]
  | inputNotBase64 cause => ["Input is not valid base64", cause.message]
  | keyInvalid cause => cause.message :: cause.source?.toList

/-- The report of a failure in one line. -/
def message (f : Failure) : String :=
  ": ".intercalate f.chain

end Failure

end TrustSchema.Command
