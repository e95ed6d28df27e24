import ModBench.Editor.Diagnostic
import ModBench.Main
import ModBench.Proofs.Path.Map
import ModBench.Proofs.Diagnostic.Snapshot
import ModBench.Lint.History
import ModBench.Lint.Ledger
import ModBench.Proofs.Lint.Moves
import ModBench.Proofs.Lint.Registry
import ModBench.Proofs.Lint.Lane
import ModBench.Proofs.Lint.Staleness
import ModBench.Proofs.Lint.Published
import ModBench.Proofs.Lint.Finality
import ModBench.Proofs.Lint.Feed
import ModBench.Proofs.Lint.Passes
import ModBench.Proofs.Terminal
import ModBench.Proofs.Report.Grammar
import ModBench.Proofs.Report.Reference
import ModBench.Proofs.Report.Printed
import ModBench.Proofs.Lint.Clock
import ModBench.Proofs.Lint.Triggers
import ModBench.Proofs.Lint.Outcome
import ModBench.Proofs.Lint.Schedule
import ModBench.Proofs.Lint.Interleaving
import ModBench.Proofs.Url.Files
import ModBench.Proofs.Editor.View
import ModBench.Proofs.Editor.Handlers
import ModBench.Proofs.Lint.Turnover
import ModBench.Proofs.Lint.Conservation
import ModBench.Proofs.Lint.Flights
import ModBench.Proofs.Lint.Backpressure
import ModBench.Proofs.Lint.Delivery
import ModBench.Proofs.Lint.Tracking
import ModBench.Proofs.Lint.Relint
import ModBench.Proofs.Lint.Failures
import ModBench.Proofs.Path.Spelling
import ModBench.Proofs.Path.Respelled
import ModBench.Proofs.Path.Parents
import ModBench.Proofs.Cli.Grouping
import ModBench.Proofs.Cli.Merging
import ModBench.Proofs.Cli.Agreement
import ModBench.Proofs.Lint.Respelled
import ModBench.Proofs.Lint.Identity
import ModBench.Proofs.Text.Bytes
import ModBench.Proofs.Files.Tree
import ModBench.Proofs.Files.Walk
import ModBench.Proofs.Files.Steps
import ModBench.Proofs.Files.Opened
import ModBench.Proofs.Files.Written
import ModBench.Proofs.Files.Unpack
import ModBench.Proofs.Project.Below
import ModBench.Proofs.Project.Layout
import ModBench.Proofs.Project.Temporary
import ModBench.Proofs.Project.Entries
import ModBench.Proofs.Project.Replace
import ModBench.Proofs.Project.Packaging
import ModBench.Proofs.Project.Folder
import ModBench.Proofs.Project.Archive
import ModBench.Proofs.Project.Deploying
import ModBench.Proofs.Report.LineEnds
import ModBench.Proofs.Path.Extension
import ModBench.Proofs.Config.Substitution
import ModBench.Proofs.Config.Layering
import ModBench.Proofs.Lint.Absolute
import ModBench.Proofs.Lint.Roots
import ModBench.Proofs.Url.Parsed
import ModBench.Proofs.Editor.Urls
import ModBench.Proofs.Files.Made
import ModBench.Proofs.Project.Scaffolding
import ModBench.Proofs.Files.Altered
import ModBench.Proofs.Files.Remade
import ModBench.Proofs.Files.Named
import ModBench.Proofs.Project.Errands
import ModBench.Proofs.Project.Served
import ModBench.Proofs.Project.Recognition
import ModBench.Proofs.Cli.Readback
