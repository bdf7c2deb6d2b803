import TrustSchema.Ber.Tag

/-!
Why octets are not a BER element, with the place of the fault. Offsets count from the first octet
of the whole input, also inside nested elements.
-/

namespace TrustSchema.Ber

/-- A structural fault of BER input. -/
inductive DecodeError where
  /-- An octet is needed where the input ends. -/
  | truncated (offset : Nat)
  /-- The identifier octets at the offset are not the shortest ones of a tag. -/
  | invalidTag (offset : Nat)
  /-- The element at the offset does not state its length. -/
  | indefiniteLength (offset : Nat)
  /-- The length octets at the offset are reserved or too many. -/
  | invalidLength (offset : Nat)
  /-- The element at the offset states a length that the input does not have. -/
  | lengthOverrun (offset length remaining : Nat)
  | unexpectedTag (expected found : Tag)
  | trailingData (count : Nat)
  | invalidObjectIdentifier
  deriving DecidableEq, Repr

/-- The report of a structural fault. -/
def DecodeError.message : DecodeError → String
  | .truncated offset => "input truncated at offset " ++ toString offset
  | .invalidTag offset => "invalid tag at offset " ++ toString offset
  | .indefiniteLength offset =>
    "indefinite length at offset " ++ toString offset ++ " is not supported"
  | .invalidLength offset => "invalid length encoding at offset " ++ toString offset
  | .lengthOverrun offset length remaining =>
    "element at offset " ++ toString offset ++ " declares " ++ toString length ++
      " bytes but only " ++ toString remaining ++ " remain"
  | .unexpectedTag expected found =>
    "expected " ++ expected.describe ++ ", found " ++ found.describe
  | .trailingData count => toString count ++ " trailing bytes after the encoded structure"
  | .invalidObjectIdentifier => "malformed object identifier"

end TrustSchema.Ber
