import PageAudit.Catalogue
import PageAudit.Document.Build
import PageAudit.Auditor
import PageAudit.Report.Text
import PageAudit.Report.Json
import PageAudit.Config.Reader
import PageAudit.Html.Reader
import PageAudit.Cli.Run
import PageAudit.Main
import PageAudit.Proofs.Audit.Verdict
import PageAudit.Proofs.Rule.Findings
import PageAudit.Proofs.Rule.Coherence
import PageAudit.Proofs.Markup.Escape
import PageAudit.Proofs.Markup.NormalForm
import PageAudit.Proofs.Markup.Budget
import PageAudit.Proofs.Document.Arena
import PageAudit.Proofs.Document.Traversal
import PageAudit.Proofs.Document.Growth
import PageAudit.Proofs.Audit.Independence
import PageAudit.Proofs.Audit.Selection
import PageAudit.Proofs.Document.Contents
import PageAudit.Proofs.Document.Parsed
import PageAudit.Proofs.Document.ParsedTree
import PageAudit.Proofs.Rule.TreeOnly
import PageAudit.Proofs.Numeral.Decimal
import PageAudit.Proofs.Numeral.Hexadecimal
import PageAudit.Proofs.Text.Pieces
import PageAudit.Proofs.Text.Line
import PageAudit.Proofs.Rule.Quoting
import PageAudit.Proofs.Report.Compact
import PageAudit.Proofs.Json.RoundTrip
import PageAudit.Proofs.Timestamp.Calendar
import PageAudit.Proofs.Timestamp.RoundTrip
import PageAudit.Proofs.Report.Reload
import PageAudit.Proofs.Report.Truncation
import PageAudit.Proofs.Report.Edits
import PageAudit.Proofs.Audit.Evidence
import PageAudit.Proofs.Audit.Limits
import PageAudit.Proofs.Document.Loops
import PageAudit.Proofs.Document.Recursion
import PageAudit.Proofs.Text.Spelling
import PageAudit.Proofs.Rule.Naming
import PageAudit.Proofs.Html.Root
import PageAudit.Proofs.Rule.Fields
import PageAudit.Proofs.Rule.HeadingOrder
import PageAudit.Proofs.Rule.SameText
import PageAudit.Proofs.Html.Modes
import PageAudit.Proofs.Html.Reader
import PageAudit.Proofs.Cli.Stages
import PageAudit.Proofs.Cli.ExitStatus
import PageAudit.Proofs.Cli.RuleSelection
import PageAudit.Proofs.Style.Override
import PageAudit.Proofs.Color.Notation
import PageAudit.Proofs.Rule.ContrastCap
import PageAudit.Proofs.Rule.NewElement
import PageAudit.Proofs.Rule.NewLabel
import PageAudit.Proofs.Rule.NewHeader
import PageAudit.Proofs.Rule.Viewport
import PageAudit.Proofs.Text.Words
import PageAudit.Proofs.Rule.BlankText
import PageAudit.Proofs.Cli.ConfigSearch
import PageAudit.Proofs.Text.LetterCase
import PageAudit.Proofs.Document.Attributes
import PageAudit.Proofs.Color.ContrastLaws
