import SourceSplit.Main
import SourceSplit.Proofs.Brace.Matching
import SourceSplit.Proofs.Files.Leads
import SourceSplit.Proofs.Files.Change
import SourceSplit.Proofs.Files.Beside
import SourceSplit.Proofs.Ending
import SourceSplit.Proofs.Split.Prepared
import SourceSplit.Proofs.Split.Commit
import SourceSplit.Proofs.Source.Name
import SourceSplit.Proofs.Split.Planned
import SourceSplit.Proofs.Split.Original
import SourceSplit.Proofs.Split.Rollback
import SourceSplit.Proofs.Path.Join
import SourceSplit.Proofs.Path.Extension
import SourceSplit.Proofs.Split.Delivered
import SourceSplit.Proofs.Files.Walk
import SourceSplit.Proofs.Split.Batch
import SourceSplit.Proofs.Split.BatchClasses
import SourceSplit.Proofs.Split.BatchFiles
import SourceSplit.Proofs.Brace.Closing
import SourceSplit.Proofs.Split.DryRun
import SourceSplit.Proofs.Text.Ascii
import SourceSplit.Proofs.Source.Header
import SourceSplit.Proofs.Source.Rendered
import SourceSplit.Proofs.Split.Refused
import SourceSplit.Proofs.Report.Recorded
import SourceSplit.Proofs.Files.Passes
import SourceSplit.Proofs.Split.Footprint
import SourceSplit.Proofs.Split.Commutes
import SourceSplit.Proofs.Split.Tally
import SourceSplit.Proofs.Files.Made
import SourceSplit.Proofs.Cli.DryRun
import SourceSplit.Proofs.Source.Search
import SourceSplit.Proofs.Source.Comment
import SourceSplit.Proofs.Brace.Opening
import SourceSplit.Proofs.Split.Declared
import SourceSplit.Proofs.Path.Parent
import SourceSplit.Proofs.Split.Decided
import SourceSplit.Proofs.Brace.Local
import SourceSplit.Proofs.Brace.Nested
import SourceSplit.Proofs.Source.Nested
import SourceSplit.Proofs.Brace.Character
import SourceSplit.Proofs.Source.Shared
import SourceSplit.Proofs.Source.Keyword
import SourceSplit.Proofs.Split.TextFile
import SourceSplit.Proofs.Path.Order
import SourceSplit.Proofs.Files.Below
import SourceSplit.Proofs.Split.Collect
import SourceSplit.Proofs.Report.Grammar
import SourceSplit.Proofs.Report.Printed
import SourceSplit.Proofs.Report.Decoded
import SourceSplit.Proofs.Toml.Spelled
import SourceSplit.Proofs.Toml.Lines
import SourceSplit.Proofs.Split.Settings
import SourceSplit.Proofs.Source.ClassPattern
import SourceSplit.Proofs.Source.StatementPattern
