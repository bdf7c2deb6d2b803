import TrustSchema.Filter.Basic
import TrustSchema.Filter.Error
import TrustSchema.Info.Tree

/-!
Filters and policies as configuration trees. A filter is a fixed sequence of properties: `type`
with the value `name`, then either `name` and `relation` or `regex`, and nothing after that. Keys
and keywords are compared up to the case of ASCII letters, and a property has no block. A policy is
a sequence of entries `filter`.
-/

namespace TrustSchema

open Info

namespace Filter

/-- The keys of a filter and the one type that there is. -/
def typeKey : Text := "type".toList
def nameType : Text := "name".toList
def nameKey : Text := "name".toList
def relationKey : Text := "relation".toList
def regexKey : Text := "regex".toList

/-- The value of a property. A block under it is refused: it comes from a brace in a value that is
not quoted. -/
def plainValue (property : Entry) : Except ConfigError Text :=
  if property.block.isEmpty then .ok property.value else .error (.nestedSection property.key)

/-- Refuses properties after a complete filter. -/
def expectEnd : List Entry → Except ConfigError Unit
  | [] => .ok ()
  | extra :: _ => .error (.trailingProperty extra.key)

/-- The filter of a name and the properties after it. -/
def ofRelation? {α : Type} (name : Name) : List Entry → Except ConfigError (Filter α)
  | [] => .error .missingRelation
  | property :: rest =>
    if property.hasKey relationKey then do
      let word ← plainValue property
      match Relation.ofWord? word with
      | none => throw (.unsupportedRelation word)
      | some r =>
        expectEnd rest
        return .relation r name
    else .error .missingRelation

variable {α : Type} [ComponentLanguage α]

/-- The filter of the properties after the type. -/
def ofProperties? : List Entry → Except ConfigError (Filter α)
  | [] => .error .missingProperties
  | property :: rest =>
    if property.hasKey nameKey then do
      let uri ← plainValue property
      match Name.ofUri? uri with
      | .error cause => throw (.invalidName uri cause)
      | .ok name => ofRelation? name rest
    else if property.hasKey regexKey then do
      let text ← plainValue property
      expectEnd rest
      match ofPattern? text with
      | .error cause => throw (.invalidRegex text cause)
      | .ok filter => return filter
    else .error (.unexpectedProperty property.key)

/-- The filter that a sequence of properties writes. -/
def ofEntries? : List Entry → Except ConfigError (Filter α)
  | [] => .error .missingType
  | property :: rest =>
    if property.hasKey typeKey then do
      let kind ← plainValue property
      if Text.sameWord kind nameType then ofProperties? rest
      else throw (.unsupportedType kind)
    else .error .missingType

end Filter

namespace Policy

variable {α : Type} [ComponentLanguage α]

/-- The key of the entries of a policy. -/
def filterKey : Text := "filter".toList

/-- The filter that an entry of a policy writes. -/
def filterOf? (entry : Entry) : Except ConfigError (Filter α) :=
  if entry.hasKey filterKey then Filter.ofEntries? entry.block
  else .error (.unexpectedEntry entry.key)

/-- The policy that a configuration tree writes, or what is wrong with its first bad entry. -/
def ofEntries? (entries : List Entry) : Except ConfigError (Policy α) :=
  (entries.mapM filterOf?).map Policy.mk

/-- The policy that a configuration text writes. -/
def ofText? (text : Text) : Except ConfigError (Policy α) :=
  match parse? text with
  | .error cause => .error (.syntaxFault cause)
  | .ok entries => ofEntries? entries

end Policy

end TrustSchema
