import AttributeLint.Main
import AttributeLint.Proofs.Analysis.Exactness
import AttributeLint.Proofs.Scan.Completion
import AttributeLint.Proofs.Scan.Overflow
import AttributeLint.Source.Workspace
import AttributeLint.Proofs.Token.Pieces
import AttributeLint.Proofs.Token.Spelling
import AttributeLint.Proofs.Analysis.SpelledMessage
import AttributeLint.Proofs.Attribute.Remainder
import AttributeLint.Proofs.Text.Access
import AttributeLint.Proofs.Token.Cursor
import AttributeLint.Proofs.Token.CursorTokens
import AttributeLint.Proofs.Token.Tiling
import AttributeLint.Proofs.Usage.Indexed
import AttributeLint.Proofs.Usage.IndexedUsages
import AttributeLint.Proofs.Attribute.Nesting
import AttributeLint.Proofs.Attribute.Derivation
import AttributeLint.Proofs.Token.LocalReading
import AttributeLint.Proofs.Usage.Stretches
import AttributeLint.Proofs.Token.Layout
import AttributeLint.Proofs.Token.Restart
import AttributeLint.Proofs.Usage.Layout
import AttributeLint.Proofs.Usage.Isolation
import AttributeLint.Proofs.Token.DecodedLength
import AttributeLint.Proofs.Text.Inside
import AttributeLint.Proofs.Usage.Extent
import AttributeLint.Proofs.Analysis.Places
import AttributeLint.Proofs.Analysis.Spans
import AttributeLint.Proofs.Analysis.Locality
import AttributeLint.Proofs.Session.History
import AttributeLint.Proofs.Source.Descent
import AttributeLint.Proofs.Source.Handles
import AttributeLint.Proofs.Rule.Insertion
import AttributeLint.Proofs.Rule.Sources
import AttributeLint.Proofs.Rule.Precedence
import AttributeLint.Proofs.Token.Escapes
import AttributeLint.Proofs.Text.Mark
import AttributeLint.Proofs.Text.Decimal
import AttributeLint.Proofs.Token.RawLines
import AttributeLint.Proofs.Message.Segmentation
import AttributeLint.Proofs.Rule.Validity
import AttributeLint.Proofs.Rule.Placeholders
import AttributeLint.Proofs.Scan.Violations
import AttributeLint.Proofs.Text.Columns
import AttributeLint.Proofs.Text.LineTable
import AttributeLint.Proofs.Text.Backsteps
import AttributeLint.Proofs.Extraction.Partition
import AttributeLint.Proofs.Token.Identifiers
import AttributeLint.Proofs.Usage.Names
import AttributeLint.Proofs.AttributeName.LastIdentifier
import AttributeLint.Proofs.AttributeName.LastSegment
import AttributeLint.Proofs.Report.Wholeness
import AttributeLint.Proofs.Rule.Directories
import AttributeLint.Proofs.Rule.Edits
import AttributeLint.Proofs.Token.Interpolated
import AttributeLint.Proofs.Token.Unclosed
import AttributeLint.Proofs.Usage.RawInterpolated
import AttributeLint.Proofs.Attribute.Arguments
import AttributeLint.Proofs.Attribute.Counters
import AttributeLint.Proofs.Analysis.OutputLines
import AttributeLint.Proofs.Usage.Confinement
import AttributeLint.Proofs.Usage.ByteOrderMark
import AttributeLint.Proofs.Analysis.MarkedFiles
import AttributeLint.Proofs.Usage.QualifiedNames
import AttributeLint.Proofs.Extraction.Lines
import AttributeLint.Proofs.Extraction.VerbatimNames
