import TrustSchema.Info.Error
import TrustSchema.Name.Error
import TrustSchema.Pattern.Error

/-!
Why a configuration is not a filter or a policy.
-/

namespace TrustSchema

/-- What is wrong with the configuration of a filter or a policy. -/
inductive ConfigError where
  /-- The first property is not `type`. -/
  | missingType
  | unsupportedType (value : Text)
  /-- Nothing follows the type. -/
  | missingProperties
  /-- The property after the type is neither `name` nor `regex`. -/
  | unexpectedProperty (key : Text)
  | invalidName (value : Text) (cause : NameError)
  /-- The property after the name is not `relation`. -/
  | missingRelation
  | unsupportedRelation (value : Text)
  | invalidRegex (pattern : Text) (cause : PatternError)
  /-- A property follows where the filter is complete. -/
  | trailingProperty (key : Text)
  /-- A property of a filter has a block of its own. -/
  | nestedSection (key : Text)
  /-- An entry of a policy is not a filter. -/
  | unexpectedEntry (key : Text)
  /-- The text of a policy is no configuration text. -/
  | syntaxFault (cause : Info.SyntaxError)
  deriving DecidableEq, Repr

namespace ConfigError

/-- The report of a configuration error, without its cause. -/
def message : ConfigError → String
  | missingType => "expected <filter.type>"
  | unsupportedType value => "unsupported filter.type: " ++ String.ofList value
  | missingProperties => "expected more properties for filter(name)"
  | unexpectedProperty key => "wrong filter(name) property: " ++ String.ofList key
  | invalidName value _ => "wrong filter.name: " ++ String.ofList value
  | missingRelation => "expected <filter.relation>"
  | unsupportedRelation value => "unsupported relation: " ++ String.ofList value
  | invalidRegex pattern _ => "wrong filter.regex: " ++ String.ofList pattern
  | trailingProperty key => "expected the end of filter, found <" ++ String.ofList key ++ ">"
  | nestedSection key => "unexpected nested section under <filter." ++ String.ofList key ++ ">"
  | unexpectedEntry key =>
    "unexpected policy entry <" ++ String.ofList key ++ ">, expected <filter>"
  | syntaxFault cause => "policy syntax error: " ++ cause.message

/-- The report of the cause of a configuration error, if another part of the library found it. -/
def cause? : ConfigError → Option String
  | invalidName _ cause => some cause.message
  | invalidRegex _ cause => some cause.message
  | syntaxFault cause => some cause.message
  | _ => none

end ConfigError

end TrustSchema
