import TrustSchema.Ber.Reader
import TrustSchema.Ber.Writer
import TrustSchema.Codec.Base64
import TrustSchema.Codec.Sha256
import TrustSchema.Key.ObjectIdentifier

/-!
Public keys as `SubjectPublicKeyInfo`: a SEQUENCE whose first field, the AlgorithmIdentifier, is a
SEQUENCE that begins with an OBJECT IDENTIFIER. Decoding runs in two passes. The first writes the
outer SEQUENCE again with the shortest length; the second reads the canonical octets, walks over
all fields, and requires the identifier of RSA encryption.
-/

namespace TrustSchema.Key

open Ber

/-- What stands in a well-formed key in place of the RSA algorithm. -/
inductive Unsupported where
  /-- The key has no fields. -/
  | noAlgorithm
  /-- The first field is not a SEQUENCE. -/
  | notSequence (found : Tag)
  /-- The AlgorithmIdentifier is empty. -/
  | emptyAlgorithm
  /-- The AlgorithmIdentifier does not begin with an OBJECT IDENTIFIER. -/
  | notIdentifier (found : Tag)
  /-- The identifier is another one. -/
  | other (found : ObjectIdentifier)
  deriving DecidableEq, Repr

/-- The description of what was found. -/
def Unsupported.found : Unsupported → String
  | .noAlgorithm => "no AlgorithmIdentifier"
  | .notSequence tag => tag.describe ++ " in place of AlgorithmIdentifier"
  | .emptyAlgorithm => "empty AlgorithmIdentifier"
  | .notIdentifier tag => tag.describe ++ " in place of algorithm OID"
  | .other oid => String.ofList oid.toText

/-- Why octets are not an RSA key. -/
inductive KeyError where
  /-- The octets are not well-formed. -/
  | decode (fault : DecodeError)
  /-- The octets are well-formed, but not an RSA key. -/
  | unsupported (found : Unsupported)
  deriving DecidableEq, Repr

namespace KeyError

/-- The report of a key error. -/
def message : KeyError → String
  | decode fault => "public key decoding error: " ++ fault.message
  | unsupported found => "only RSA public keys are supported (" ++ found.found ++ " requested)"

/-- The report of the fault behind a key error. -/
def source? : KeyError → Option String
  | decode fault => some fault.message
  | unsupported _ => none

end KeyError

/-- The octets of an RSA key in canonical form, as `Blob.decode` gives them. -/
structure Blob where
  der : Bytes
  deriving DecidableEq, Repr

/-- The contents of the outer SEQUENCE under the shortest length, if nothing follows it. -/
def canonicalize (raw : Bytes) : Except DecodeError Bytes :=
  match (Reader.ofBytes raw).readExpected Tag.sequence with
  | (.error fault, _) => .error fault
  | (.ok outer, after) =>
    match after.finish with
    | .error fault => .error fault
    | .ok () => .ok (encodeElement Tag.sequence outer.contents)

/-- Reads elements until nothing is left. -/
def walk (r : Reader) : Except DecodeError Unit :=
  if r.isEmpty then .ok ()
  else
    match _read : r.readElement with
    | (.error fault, _) => .error fault
    | (.ok _, after) => walk after
termination_by r.remaining
decreasing_by exact Reader.remaining_readElement_lt _read

/-- Whether the algorithm of an AlgorithmIdentifier is RSA encryption. -/
def checkIdentifier (algorithm : Element) : Except KeyError Unit :=
  if algorithm.reader.isEmpty then .error (.unsupported .emptyAlgorithm)
  else
    match algorithm.reader.readElement with
    | (.error fault, _) => .error (.decode fault)
    | (.ok first, _) =>
      if first.tag ≠ Tag.objectIdentifier then .error (.unsupported (.notIdentifier first.tag))
      else
        match ObjectIdentifier.ofContents? first.contents with
        | none => .error (.decode .invalidObjectIdentifier)
        | some oid =>
          if oid = ObjectIdentifier.rsaEncryption then .ok ()
          else .error (.unsupported (.other oid))

/-- Whether canonical octets are an RSA key. All fields are walked over before the first one is
looked into. -/
def checkAlgorithm (canonical : Bytes) : Except KeyError Unit :=
  match (Reader.ofBytes canonical).readExpected Tag.sequence with
  | (.error fault, _) => .error (.decode fault)
  | (.ok outer, _) =>
    if outer.reader.isEmpty then .error (.unsupported .noAlgorithm)
    else
      match outer.reader.readElement with
      | (.error fault, _) => .error (.decode fault)
      | (.ok algorithm, fields) =>
        match walk fields with
        | .error fault => .error (.decode fault)
        | .ok () =>
          if algorithm.tag ≠ Tag.sequence then .error (.unsupported (.notSequence algorithm.tag))
          else checkIdentifier algorithm

namespace Blob

/-- The key that octets write. -/
def decode (raw : Bytes) : Except KeyError Blob :=
  match canonicalize raw with
  | .error fault => .error (.decode fault)
  | .ok canonical =>
    match checkAlgorithm canonical with
    | .error e => .error e
    | .ok () => .ok ⟨canonical⟩

/-- The canonical octets of a key. -/
def encode (key : Blob) : Bytes :=
  key.der

/-- The canonical octets of a key after other output. -/
def appendTo (key : Blob) (output : Bytes) : Bytes :=
  output ++ key.der

/-- The SHA-256 digest of the canonical octets. -/
def fingerprint (key : Blob) : Bytes :=
  Codec.Sha256.digest key.der

/-- The column at which rendered text is wrapped. -/
def lineWidth : Nat := 64

/-- A text in lines of `width` characters, the last one possibly shorter, each ended by a
newline. -/
def wrap (width : Nat) (text : Text) : Text :=
  if text.length ≤ width ∨ width = 0 then text ++ ['\n']
  else text.take width ++ '\n' :: wrap width (text.drop width)
termination_by text.length
decreasing_by
  simp only [List.length_drop]
  omega

/-- The base64 text of a key in lines. -/
def render (key : Blob) : Text :=
  wrap lineWidth (Codec.Base64.encode key.der)

end Blob

end TrustSchema.Key
