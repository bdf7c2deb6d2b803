import TrustSchema.Toml.Reader

/-!
The settings of the tool: a TOML document with the tables `logging` and `policy`. What is missing
has a default, and what is not known is passed over. A table may also be written as an array of its
values in order.
-/

namespace TrustSchema

/-- How the tool reports on its work. -/
structure Logging where
  level : Text
  /-- Reports are lines of JSON. -/
  json : Bool
  deriving DecidableEq, Repr

/-- The settings of the tool. -/
structure Settings where
  logging : Logging
  /-- Where the policy is, if the command line does not say. -/
  policyPath : Option Text
  deriving DecidableEq, Repr

/-- Why a text does not give settings. -/
inductive SettingsError where
  | syntaxFault (fault : Toml.Fault)
  /-- The value of a setting is of another type than the setting. -/
  | wrongType (setting : String)
  /-- An array has no value for a setting without a default. -/
  | missing (setting : String)
  deriving DecidableEq, Repr

/-- The report of a settings error. -/
def SettingsError.message : SettingsError → String
  | .syntaxFault fault => "TOML parse error: " ++ fault.reason
  | .wrongType setting => "TOML parse error: invalid type for " ++ setting
  | .missing setting => "TOML parse error: no value for " ++ setting

namespace Settings

/-- The defaults of the `logging` table. -/
def defaultLogging : Logging := ⟨"info".toList, false⟩

/-- The settings of an empty document. -/
def default : Settings := ⟨defaultLogging, none⟩

instance : Inhabited Settings := ⟨default⟩

/-- A setting that is a text. -/
def textOf? (setting : String) (fallback : Text) : Option Toml.Value → Except SettingsError Text
  | none => .ok fallback
  | some (.string text) => .ok text
  | some _ => .error (.wrongType setting)

/-- A setting that is a truth value. -/
def booleanOf? (setting : String) (fallback : Bool) : Option Toml.Value → Except SettingsError Bool
  | none => .ok fallback
  | some (.boolean b) => .ok b
  | some _ => .error (.wrongType setting)

/-- The `logging` table. A moment in time counts as a table without known fields. -/
def loggingOf? : Option Toml.Value → Except SettingsError Logging
  | none | some (.moment _) => .ok defaultLogging
  | some (.table _ fields) => do
    let level ← textOf? "logging.level" defaultLogging.level
      (Toml.Fields.get? fields "level".toList)
    let json ← booleanOf? "logging.json" defaultLogging.json (Toml.Fields.get? fields "json".toList)
    return ⟨level, json⟩
  | some (.array _ items) => do
    let level ← textOf? "logging.level" defaultLogging.level items[0]?
    let json ← booleanOf? "logging.json" defaultLogging.json items[1]?
    return ⟨level, json⟩
  | some _ => .error (.wrongType "logging")

/-- The path of the `policy` table. -/
def pathOf? : Toml.Value → Except SettingsError (Option Text)
  | .string text => .ok (some text)
  | _ => .error (.wrongType "policy.path")

/-- The `policy` table. A moment in time counts as a table without known fields. -/
def policyPathOf? : Option Toml.Value → Except SettingsError (Option Text)
  | none | some (.moment _) => .ok none
  | some (.table _ fields) =>
    match Toml.Fields.get? fields "path".toList with
    | none => .ok none
    | some path => pathOf? path
  | some (.array _ (path :: _)) => pathOf? path
  | some (.array _ []) => .error (.missing "policy.path")
  | some _ => .error (.wrongType "policy")

/-- The settings that the fields of a document give. -/
def ofFields? (fields : Toml.Fields) : Except SettingsError Settings := do
  let logging ← loggingOf? (Toml.Fields.get? fields "logging".toList)
  let policyPath ← policyPathOf? (Toml.Fields.get? fields "policy".toList)
  return ⟨logging, policyPath⟩

/-- The settings that a text gives. -/
def ofText? (text : Text) : Except SettingsError Settings :=
  match Toml.parse? text with
  | .error fault => .error (.syntaxFault fault)
  | .ok fields => ofFields? fields

end Settings

end TrustSchema
