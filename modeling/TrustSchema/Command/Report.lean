import TrustSchema.Command.Json
import TrustSchema.Filter.Grammar
import TrustSchema.Key.Blob

/-!
What the commands print: which filters of a policy cover a packet, and what a key is. Both come as
lines of text or as JSON.
-/

namespace TrustSchema.Command

/-- How to use the tool. -/
def usage : Text :=
  ("\n".intercalate
    ["Trust Check - Evaluate NDN trust filters and public keys",
     "",
     "USAGE:",
     "    trust-check [--config <toml>] filter --policy <file> --name <uri> [--interest] [--json]",
     "    trust-check [--config <toml>] key --input <file> [--base64] [--json]",
     "",
     "COMMANDS:",
     "    filter    Show which policy filters match a Data or signed Interest name",
     "    key       Decode an RSA SubjectPublicKeyInfo and print its fingerprint",
     "",
     "EXAMPLES:",
     "    trust-check filter --policy trust.info --name /ndn/site/KEY/1",
     "    trust-check filter --policy trust.info --name /ndn/site/cmd/sig/val --interest",
     "    trust-check key --input anchor.b64 --base64 --json",
     ""]).toList

/-- A filter of a policy, as its report shows it. -/
structure FilterLine where
  index : Nat
  filter : Text
  covers : Bool
  deriving DecidableEq, Repr

/-- What a policy says about a packet. -/
structure PolicyReport where
  packet : Packet
  filters : List FilterLine
  admitted : Bool
  deriving DecidableEq, Repr

namespace PolicyReport

/-- The report on a policy and a packet. -/
def of {α : Type} [ComponentLanguage α] (policy : Policy α) (packet : Packet) : PolicyReport where
  packet := packet
  filters := policy.filters.zipIdx.map fun (filter, index) =>
    ⟨index, filter.describe, filter.covers packet⟩
  admitted := policy.admits packet

/-- The width of the mark before a filter. -/
def markWidth : Nat := 6

/-- The mark of a filter, filled up with blanks. -/
def mark (covers : Bool) : Text :=
  let word := if covers then "match".toList else ['-']
  word ++ List.replicate (markWidth - word.length) ' '

/-- The line of a filter. -/
def filterText (line : FilterLine) : Text :=
  "  [".toList ++ Text.ofNat line.index ++ "] ".toList ++ mark line.covers ++
    ' ' :: line.filter ++ ['\n']

/-- The report as lines of text. -/
def toText (r : PolicyReport) : Text :=
  let lines :=
    if r.filters.isEmpty then "  (no filters, every packet passes)\n".toList
    else r.filters.flatMap filterText
  r.packet.kind.word ++ ' ' :: r.packet.name.toUri ++ '\n' :: lines

/-- The report as JSON. -/
def toJson (r : PolicyReport) : Json :=
  .object
    [("name".toList, .string r.packet.name.toUri),
     ("kind".toList, .string r.packet.kind.word),
     ("filters".toList, .array (r.filters.map fun line =>
       .object
         [("index".toList, .number line.index),
          ("filter".toList, .string line.filter),
          ("matches".toList, .boolean line.covers)])),
     ("matched".toList, .boolean r.admitted)]

end PolicyReport

/-- What is told about a key. -/
structure KeyReport where
  size : Nat
  sha256 : Text
  base64 : Text
  deriving DecidableEq, Repr

namespace KeyReport

/-- The report on a key. -/
def of (key : Key.Blob) : KeyReport where
  size := key.encode.length
  sha256 := Text.hexOfBytes key.fingerprint
  base64 := key.render

/-- The kind of all keys that can be decoded. -/
def keyType : Text := "Rsa".toList

/-- The report as lines of text. -/
def toText (r : KeyReport) : Text :=
  "Key type: ".toList ++ keyType ++ "\nSize: ".toList ++ Text.ofNat r.size ++
    " bytes\nSHA-256: ".toList ++ r.sha256 ++ '\n' :: r.base64

/-- The report as JSON. -/
def toJson (r : KeyReport) : Json :=
  .object
    [("key_type".toList, .string keyType),
     ("size".toList, .number r.size),
     ("sha256".toList, .string r.sha256),
     ("base64".toList, .string r.base64)]

end KeyReport

end TrustSchema.Command
