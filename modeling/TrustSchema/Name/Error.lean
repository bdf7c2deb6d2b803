import TrustSchema.Text.Basic

/-!
Why a text is not the URI of a name. Both causes carry the offending segment as it stands between
the slashes, without the white space around it.
-/

namespace TrustSchema

/-- Why a segment is not a component. -/
inductive NameError where
  /-- A `%` is not followed by two hexadecimal digits. -/
  | invalidEscape (segment : Text)
  /-- The segment stands for one or two periods, which no component is written as. -/
  | illegalComponent (segment : Text)
  deriving DecidableEq, Repr

/-- The report of a name error. -/
def NameError.message : NameError → String
  | .invalidEscape segment =>
    "invalid percent-escape in name component: " ++ String.ofList segment
  | .illegalComponent segment => "illegal name component: " ++ String.ofList segment

end TrustSchema
