import TrustSchema.Ber.Reader
import TrustSchema.Ber.Writer
import TrustSchema.Codec.Base64
import TrustSchema.Codec.Sha256
import TrustSchema.Command.Run
import TrustSchema.Filter.Grammar
import TrustSchema.Info.Tree
import TrustSchema.Key.Blob
import TrustSchema.Main
import TrustSchema.Name.Uri
import TrustSchema.Pattern.Parser
import TrustSchema.Proofs.Ber.Displacement
import TrustSchema.Proofs.Ber.Element
import TrustSchema.Proofs.Ber.Forest
import TrustSchema.Proofs.Ber.Session
import TrustSchema.Proofs.Codec.Base64
import TrustSchema.Proofs.Command.Options
import TrustSchema.Proofs.Filter.Acceptance
import TrustSchema.Proofs.Filter.Agreement
import TrustSchema.Proofs.Filter.Coverage
import TrustSchema.Proofs.Filter.Decision
import TrustSchema.Proofs.Filter.InnerBlock
import TrustSchema.Proofs.Filter.PolicyText
import TrustSchema.Proofs.Info.Acceptance
import TrustSchema.Proofs.Info.Lines
import TrustSchema.Proofs.Info.Nesting
import TrustSchema.Proofs.Info.Offending
import TrustSchema.Proofs.Info.Rendering
import TrustSchema.Proofs.Info.Tokens
import TrustSchema.Proofs.Info.Tree
import TrustSchema.Proofs.Key.Canonical
import TrustSchema.Proofs.Key.Classification
import TrustSchema.Proofs.Key.DottedText
import TrustSchema.Proofs.Key.Parameters
import TrustSchema.Proofs.Key.Places
import TrustSchema.Proofs.Key.PrefixFree
import TrustSchema.Proofs.Key.Rendering
import TrustSchema.Proofs.Name.Acceptance
import TrustSchema.Proofs.Name.Order
import TrustSchema.Proofs.Name.Spelling
import TrustSchema.Proofs.Name.Uri
import TrustSchema.Proofs.Pattern.Advance
import TrustSchema.Proofs.Pattern.Boundaries
import TrustSchema.Proofs.Pattern.Cursor
import TrustSchema.Proofs.Pattern.Literal
import TrustSchema.Proofs.Pattern.Matching
import TrustSchema.Proofs.Pattern.Offsets
import TrustSchema.Proofs.Pattern.WholeComponent
import TrustSchema.Proofs.Positions.Steps
import TrustSchema.Proofs.Regex.Literal
import TrustSchema.Proofs.Regex.Meaning
import TrustSchema.Proofs.Text.Items
import TrustSchema.Regex.Parser
import TrustSchema.Settings
import TrustSchema.Toml.Reader
