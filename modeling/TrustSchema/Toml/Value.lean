import TrustSchema.Toml.Error

/-!
TOML values. A table knows how it came to be, which decides what may still be added to it, and an
array knows whether headers may still add tables to it.
-/

namespace TrustSchema.Toml

/-- How a table came to be. -/
inductive Origin where
  /-- Written between braces; complete. -/
  | inline
  /-- By a header of its own. -/
  | header
  /-- By a header of a table in it. -/
  | implied
  /-- By a key of several parts. -/
  | dotted
  deriving DecidableEq, Repr

/-- A value. The text of a float or of a moment in time is kept as it was written. -/
inductive Value where
  | string (text : Text)
  | integer (n : Int)
  | float (written : Text)
  | boolean (b : Bool)
  | moment (written : Text)
  | array (growing : Bool) (items : List Value)
  | table (origin : Origin) (fields : List (Text × Value))
  deriving Repr

/-- The fields of a table, in order. -/
abbrev Fields := List (Text × Value)

namespace Fields

/-- The value of a key. -/
def get? (fields : Fields) (key : Text) : Option Value :=
  (fields.find? fun field => field.1 = key).map Prod.snd

/-- The fields with a key set to a value. A new key goes to the end. -/
def set (fields : Fields) (key : Text) (value : Value) : Fields :=
  match fields with
  | [] => [(key, value)]
  | field :: rest =>
    if field.1 = key then (key, value) :: rest else field :: set rest key value

@[simp] theorem get?_set (fields : Fields) (key : Text) (value : Value) :
    (fields.set key value).get? key = some value := by
  induction fields with
  | nil => simp [set, get?]
  | cons field rest ih =>
    by_cases same : field.1 = key
    · simp [set, get?, same]
    · simp only [set, same, if_false]
      simpa [get?, same] using ih

end Fields

end TrustSchema.Toml
