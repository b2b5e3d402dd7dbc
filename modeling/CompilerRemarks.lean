import CompilerRemarks.Anchor.Basic
import CompilerRemarks.Anchor.Dump
import CompilerRemarks.Anchor.Layout
import CompilerRemarks.Anchor.Mask
import CompilerRemarks.Anchor.Scan
import CompilerRemarks.Anchor.Tool
import CompilerRemarks.Cli.Invocation
import CompilerRemarks.Cli.Parameter
import CompilerRemarks.Cli.Reading
import CompilerRemarks.Cli.Report
import CompilerRemarks.Cli.Run
import CompilerRemarks.Command
import CompilerRemarks.Database.Basic
import CompilerRemarks.Database.Resolver
import CompilerRemarks.Decimal.Basic
import CompilerRemarks.Decimal.Shortest
import CompilerRemarks.Failure
import CompilerRemarks.Files.Basic
import CompilerRemarks.Files.Edit
import CompilerRemarks.Files.Image
import CompilerRemarks.Files.Standard
import CompilerRemarks.Json.Basic
import CompilerRemarks.Json.Printer
import CompilerRemarks.Json.Reader
import CompilerRemarks.Main
import CompilerRemarks.Notice
import CompilerRemarks.Path.Basic
import CompilerRemarks.Path.Normal
import CompilerRemarks.Process.Basic
import CompilerRemarks.Process.Collect
import CompilerRemarks.Process.Producer
import CompilerRemarks.Process.Start
import CompilerRemarks.Remark.Basic
import CompilerRemarks.Remark.Diagnostic
import CompilerRemarks.Remark.Document
import CompilerRemarks.Remark.Encoding
import CompilerRemarks.Remark.Query
import CompilerRemarks.Remark.Reader
import CompilerRemarks.Remark.Stream
import CompilerRemarks.Session.Analysis
import CompilerRemarks.Session.Basic
import CompilerRemarks.Session.Serve
import CompilerRemarks.Settings.Basic
import CompilerRemarks.Settings.Reader
import CompilerRemarks.Shell.Brace
import CompilerRemarks.Shell.Builtin.Basic
import CompilerRemarks.Shell.Builtin.Declare
import CompilerRemarks.Shell.Builtin.Read
import CompilerRemarks.Shell.Builtin.Signal
import CompilerRemarks.Shell.Calculate
import CompilerRemarks.Shell.Condition
import CompilerRemarks.Shell.Document
import CompilerRemarks.Shell.Escape
import CompilerRemarks.Shell.Expand
import CompilerRemarks.Shell.Expr
import CompilerRemarks.Shell.Format
import CompilerRemarks.Shell.Glob
import CompilerRemarks.Shell.Machine
import CompilerRemarks.Shell.Nesting
import CompilerRemarks.Shell.Pattern
import CompilerRemarks.Shell.Process
import CompilerRemarks.Shell.Program
import CompilerRemarks.Shell.Quote
import CompilerRemarks.Shell.Reader
import CompilerRemarks.Shell.Redirection
import CompilerRemarks.Shell.Regex
import CompilerRemarks.Shell.Run
import CompilerRemarks.Shell.Script
import CompilerRemarks.Shell.Stream
import CompilerRemarks.Shell.Test
import CompilerRemarks.Shell.Word
import CompilerRemarks.ShellWords
import CompilerRemarks.Source
import CompilerRemarks.Text.Blank
import CompilerRemarks.Text.Cut
import CompilerRemarks.Text.Numeral
import CompilerRemarks.Text.Utf8
import CompilerRemarks.Text.Visible
import CompilerRemarks.Text.Word
import CompilerRemarks.Toml.Basic
import CompilerRemarks.Toml.Quoted
import CompilerRemarks.Toml.Reader
import CompilerRemarks.Toml.Scalar
import CompilerRemarks.Toml.Table
import CompilerRemarks.Yaml.Document
import CompilerRemarks.Yaml.Node
import CompilerRemarks.Yaml.Scalar
import CompilerRemarks.Yaml.Token.Basic
import CompilerRemarks.Yaml.Token.Property
import CompilerRemarks.Yaml.Token.Scalar
import CompilerRemarks.Yaml.Token.Scan
import CompilerRemarks.Yaml.Value
import CompilerRemarks.Proofs.Database.Selection
import CompilerRemarks.Proofs.Notice
import CompilerRemarks.Proofs.Process.Arrival
import CompilerRemarks.Proofs.Process.Cancellation
import CompilerRemarks.Proofs.Process.Reports
import CompilerRemarks.Proofs.Remark.Documents
import CompilerRemarks.Proofs.Remark.Chunks
import CompilerRemarks.Proofs.Remark.Lines
import CompilerRemarks.Proofs.Remark.LocationLine
import CompilerRemarks.Proofs.Session.History
import CompilerRemarks.Proofs.Session.Interleaving
import CompilerRemarks.Proofs.Session.Course
import CompilerRemarks.Proofs.Session.Origin
import CompilerRemarks.Proofs.Session.Transparency
import CompilerRemarks.Proofs.Text.Cut
import CompilerRemarks.Proofs.Text.Utf8
import CompilerRemarks.Proofs.ShellWords
import CompilerRemarks.Proofs.Database.Records
import CompilerRemarks.Proofs.Notice.History
import CompilerRemarks.Proofs.Text.Numeral
import CompilerRemarks.Proofs.Remark.Acceptance
import CompilerRemarks.Proofs.Json.RoundTrip
import CompilerRemarks.Proofs.Remark.Encoding
import CompilerRemarks.Proofs.Remark.FilePattern
import CompilerRemarks.Proofs.Source
import CompilerRemarks.Proofs.Anchor.Order
import CompilerRemarks.Proofs.Text.Offset
import CompilerRemarks.Proofs.Anchor.Mask
import CompilerRemarks.Proofs.Anchor.Layout
import CompilerRemarks.Proofs.Anchor.Extents
import CompilerRemarks.Proofs.Anchor.Delta
import CompilerRemarks.Proofs.Remark.Grouping
import CompilerRemarks.Proofs.Remark.Editor
import CompilerRemarks.Proofs.Anchor.Guarded
import CompilerRemarks.Proofs.Path.Components
import CompilerRemarks.Proofs.Path.Normal
import CompilerRemarks.Proofs.Database.Candidates
import CompilerRemarks.Proofs.Database.Choice
import CompilerRemarks.Proofs.Database.Loading
import CompilerRemarks.Proofs.Database.Spelling
import CompilerRemarks.Proofs.Database.SearchOrder
import CompilerRemarks.Proofs.Path.Spelling
import CompilerRemarks.Proofs.Path.Order
import CompilerRemarks.Proofs.Remark.SameFile
import CompilerRemarks.Proofs.Anchor.Arguments
import CompilerRemarks.Proofs.Text.Pattern
import CompilerRemarks.Proofs.Process.Observers
import CompilerRemarks.Proofs.Cli.Words
import CompilerRemarks.Proofs.Cli.Agreement
import CompilerRemarks.Proofs.Anchor.Brackets
import CompilerRemarks.Proofs.Anchor.Positions
