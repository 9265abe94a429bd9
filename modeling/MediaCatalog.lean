import MediaCatalog.BatchedUpdate.Payload
import MediaCatalog.BatchedUpdate.RunState
import MediaCatalog.BatchedUpdate.Trigger
import MediaCatalog.CommandLine.Command
import MediaCatalog.CommandLine.Fault
import MediaCatalog.CommandLine.Generate
import MediaCatalog.CommandLine.Option
import MediaCatalog.CommandLine.PreviewTags
import MediaCatalog.CommandLine.Program
import MediaCatalog.CommandLine.Repair
import MediaCatalog.CommandLine.Report
import MediaCatalog.CommandLine.Settings
import MediaCatalog.Decimal.Double
import MediaCatalog.Decimal.Scaled
import MediaCatalog.Decimal.Shortest
import MediaCatalog.Environment.Basic
import MediaCatalog.Environment.File
import MediaCatalog.Files.Folder
import MediaCatalog.Http.Exchange
import MediaCatalog.Http.Fetch
import MediaCatalog.Http.Offline
import MediaCatalog.Http.Request
import MediaCatalog.Json.Basic
import MediaCatalog.Json.Printer
import MediaCatalog.Json.Reader
import MediaCatalog.Json.Selection
import MediaCatalog.Main
import MediaCatalog.RepairJob.Basic
import MediaCatalog.RepairJob.Connection
import MediaCatalog.RepairJob.Run
import MediaCatalog.RepairJob.Sql
import MediaCatalog.Schema.Declaration
import MediaCatalog.Schema.Dialect
import MediaCatalog.Schema.Document
import MediaCatalog.Schema.FieldType
import MediaCatalog.Schema.Generation
import MediaCatalog.Schema.Language
import MediaCatalog.Schema.Model
import MediaCatalog.Schema.ModelsFile
import MediaCatalog.Schema.Registry
import MediaCatalog.Schema.Session
import MediaCatalog.Tag.Basic
import MediaCatalog.Tag.Escape
import MediaCatalog.Tag.Repair
import MediaCatalog.Text.Alphanumeric
import MediaCatalog.Text.Base64
import MediaCatalog.Text.Blank
import MediaCatalog.Text.DecimalDigit
import MediaCatalog.Text.Hex
import MediaCatalog.Text.Lines
import MediaCatalog.Text.Lossy
import MediaCatalog.Text.Quoted
import MediaCatalog.Text.Visible
import MediaCatalog.Time
import MediaCatalog.Toml.Quoted
import MediaCatalog.Toml.Reader
import MediaCatalog.Toml.Scalar
import MediaCatalog.Toml.Table
import MediaCatalog.Url.Basic
import MediaCatalog.Url.Domain
import MediaCatalog.Url.Fault
import MediaCatalog.Url.Host
import MediaCatalog.Url.Percent
import MediaCatalog.Url.Punycode
import MediaCatalog.Workflow.Definition
import MediaCatalog.Workflow.Failure
import MediaCatalog.Workflow.Order
import MediaCatalog.Workflow.Run
import MediaCatalog.Workflow.Runner
import MediaCatalog.Workflow.Tally
import MediaCatalog.Workflow.Validation
import MediaCatalog.Yaml.Anchor
import MediaCatalog.Yaml.Cursor
import MediaCatalog.Yaml.Document
import MediaCatalog.Yaml.Node
import MediaCatalog.Yaml.Scalar
import MediaCatalog.Yaml.Tag
import MediaCatalog.Yaml.Token
import MediaCatalog.Yaml.Value
import MediaCatalog.Proofs.BatchedUpdate.Patience
import MediaCatalog.Proofs.BatchedUpdate.Payload
import MediaCatalog.Proofs.BatchedUpdate.Polling
import MediaCatalog.Proofs.Decimal.Nearest
import MediaCatalog.Proofs.Decimal.Rounding
import MediaCatalog.Proofs.Decimal.Text
import MediaCatalog.Proofs.Files.Folder
import MediaCatalog.Proofs.Http.Dialogue
import MediaCatalog.Proofs.Json.Distinct
import MediaCatalog.Proofs.Json.Quote
import MediaCatalog.Proofs.Json.Reading
import MediaCatalog.Proofs.Json.Skip
import MediaCatalog.Proofs.Json.Text
import MediaCatalog.Proofs.RepairJob.HandOff
import MediaCatalog.Proofs.RepairJob.Queries
import MediaCatalog.Proofs.Schema.Alternatives
import MediaCatalog.Proofs.Schema.Comment
import MediaCatalog.Proofs.Schema.Defaults
import MediaCatalog.Proofs.Schema.Docstring
import MediaCatalog.Proofs.Schema.Generation
import MediaCatalog.Proofs.Schema.Layout
import MediaCatalog.Proofs.Schema.Parts
import MediaCatalog.Proofs.Schema.References
import MediaCatalog.Proofs.Schema.Registration
import MediaCatalog.Proofs.Schema.Rendering
import MediaCatalog.Proofs.Schema.Session
import MediaCatalog.Proofs.Schema.Spelling
import MediaCatalog.Proofs.Schema.Subset
import MediaCatalog.Proofs.Schema.Unambiguous
import MediaCatalog.Proofs.Tag.Count
import MediaCatalog.Proofs.Tag.Grammar
import MediaCatalog.Proofs.Tag.Joining
import MediaCatalog.Proofs.Tag.Preview
import MediaCatalog.Proofs.Tag.Provider
import MediaCatalog.Proofs.Tag.Repair
import MediaCatalog.Proofs.Tag.RoundTrip
import MediaCatalog.Proofs.Tag.Spelling
import MediaCatalog.Proofs.Tag.Unchanged
import MediaCatalog.Proofs.Tag.Unknown
import MediaCatalog.Proofs.Text.Blank
import MediaCatalog.Proofs.Text.Hex
import MediaCatalog.Proofs.Text.Lines
import MediaCatalog.Proofs.Text.Mark
import MediaCatalog.Proofs.Text.Words
import MediaCatalog.Proofs.Url.Segment
import MediaCatalog.Proofs.Workflow.Admission
import MediaCatalog.Proofs.Workflow.Alone
import MediaCatalog.Proofs.Workflow.Answer
import MediaCatalog.Proofs.Workflow.Clock
import MediaCatalog.Proofs.Workflow.Cycle
import MediaCatalog.Proofs.Workflow.Deadline
import MediaCatalog.Proofs.Workflow.History
import MediaCatalog.Proofs.Workflow.Independence
import MediaCatalog.Proofs.Workflow.LeastOrder
import MediaCatalog.Proofs.Workflow.Order
import MediaCatalog.Proofs.Workflow.Report
import MediaCatalog.Proofs.Workflow.Retry
import MediaCatalog.Proofs.Workflow.Search
import MediaCatalog.Proofs.Workflow.Slots
import MediaCatalog.Proofs.Workflow.Trials
import MediaCatalog.Proofs.Workflow.Turn
import MediaCatalog.Proofs.Workflow.Waking
