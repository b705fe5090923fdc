import LintDesk.Cli.Arguments
import LintDesk.Cli.Command
import LintDesk.Cli.Discovery
import LintDesk.Config.Basic
import LintDesk.Config.Entry
import LintDesk.Config.Extends
import LintDesk.Config.Lookup
import LintDesk.Config.Names
import LintDesk.Config.Parse
import LintDesk.Config.Resolve
import LintDesk.Desk.Run
import LintDesk.Desk.State
import LintDesk.Desk.Step
import LintDesk.Desk.Task
import LintDesk.Document.Basic
import LintDesk.Edit.Batch
import LintDesk.Edit.Diagnostic
import LintDesk.Edit.LineFix
import LintDesk.Edit.Position
import LintDesk.Engine.Basic
import LintDesk.Engine.Lint
import LintDesk.Engine.Output
import LintDesk.Fault
import LintDesk.Files.Disk
import LintDesk.Files.Layer
import LintDesk.Files.Memory
import LintDesk.Files.Store
import LintDesk.Files.Tree
import LintDesk.Ignore.File
import LintDesk.Ignore.Set
import LintDesk.Journal
import LintDesk.Json.Basic
import LintDesk.Json.Decimal
import LintDesk.Json.Lenient
import LintDesk.Json.Parser
import LintDesk.Json.Printer
import LintDesk.Json.Record
import LintDesk.Main
import LintDesk.Path
import LintDesk.Pattern.Automaton
import LintDesk.Pattern.Glob
import LintDesk.Pattern.Globs
import LintDesk.Pattern.Regex
import LintDesk.Pattern.SymbolSet
import LintDesk.Proofs.Config.LookupTrace
import LintDesk.Proofs.Config.Freshness
import LintDesk.Proofs.Config.Precedence
import LintDesk.Proofs.Config.Probing
import LintDesk.Proofs.Config.Tracking
import LintDesk.Proofs.Config.Uncached
import LintDesk.Proofs.Config.Transparency
import LintDesk.Proofs.Files.Spelling
import LintDesk.Proofs.Json.Dict
import LintDesk.Proofs.Lookup
import LintDesk.Proofs.Path
import LintDesk.Proofs.Rule.BlankFix
import LintDesk.Proofs.Rule.TidyLine
import LintDesk.Proofs.Rule.Tidiness
import LintDesk.Proofs.Rule.TidyText
import LintDesk.Proofs.Text.Splitting
import LintDesk.Proofs.Text.Units
import LintDesk.Proofs.Text.Visible
import LintDesk.Proofs.Trust.GateTrace
import LintDesk.Proofs.Trust.Consent
import LintDesk.Proofs.Trust.Renewal
import LintDesk.Rule.Builtin
import LintDesk.Rule.Check
import LintDesk.Rule.Custom
import LintDesk.Rule.Fence
import LintDesk.Server.CodeAction
import LintDesk.Server.Message
import LintDesk.Server.Params
import LintDesk.Server.Publisher
import LintDesk.Server.Serve
import LintDesk.Server.Service
import LintDesk.Server.Settings
import LintDesk.Server.Wire
import LintDesk.Settings.Basic
import LintDesk.Text.Blank
import LintDesk.Text.Lines
import LintDesk.Text.Units
import LintDesk.Trust.Gate
import LintDesk.Trust.Store
import LintDesk.Unicode.CaseFold
import LintDesk.Unicode.Category
import LintDesk.Unicode.Property
import LintDesk.Unicode.Script
import LintDesk.Url.Basic
import LintDesk.Url.Host
import LintDesk.Url.Percent
import LintDesk.Violation
import LintDesk.Yaml.Cursor
import LintDesk.Yaml.Node
import LintDesk.Yaml.Scalar
import LintDesk.Yaml.Token
import LintDesk.Yaml.Value
import LintDesk.Proofs.Edit.Plan
import LintDesk.Proofs.Edit.ByLine
import LintDesk.Proofs.Edit.LineFixes
import LintDesk.Proofs.Edit.Tidying
import LintDesk.Proofs.Edit.Convergence
import LintDesk.Proofs.Edit.Content
import LintDesk.Proofs.Edit.Offset
import LintDesk.Proofs.Edit.Wire
import LintDesk.Proofs.Edit.QuickFix
import LintDesk.Proofs.Edit.Proposals
import LintDesk.Proofs.Edit.Outcomes
import LintDesk.Proofs.Edit.FenceStability
import LintDesk.Proofs.Edit.RoundTrip
import LintDesk.Proofs.Edit.Idle
import LintDesk.Proofs.Edit.LinePlan
import LintDesk.Proofs.Edit.Snapshot
import LintDesk.Proofs.Edit.Survival
import LintDesk.Proofs.Rule.BlankRuns
import LintDesk.Proofs.Edit.Rewriting
import LintDesk.Proofs.Edit.SingleRule
import LintDesk.Proofs.Desk.PassState
import LintDesk.Proofs.Desk.ActSpec
import LintDesk.Proofs.Desk.Interleaving
import LintDesk.Proofs.Desk.PassChanges
import LintDesk.Proofs.Desk.Passes
import LintDesk.Proofs.Desk.Timers
import LintDesk.Proofs.Desk.CurrentPasses
import LintDesk.Proofs.Desk.Closing
import LintDesk.Proofs.Desk.Rest
import LintDesk.Proofs.Trust.Prompts
import LintDesk.Proofs.Desk.IgnoreFiles
import LintDesk.Proofs.Server.Exchange
import LintDesk.Proofs.Desk.Delays
import LintDesk.Proofs.Desk.Bursts
import LintDesk.Proofs.Url.DecodedPaths
import LintDesk.Proofs.Url.FilePaths
import LintDesk.Proofs.Files.Reach
import LintDesk.Proofs.Config.Endings
import LintDesk.Proofs.Config.Unset
import LintDesk.Proofs.Desk.LintInputs
import LintDesk.Proofs.Desk.Linting
import LintDesk.Proofs.Desk.IgnoreReads
import LintDesk.Proofs.Desk.KeptTasks
import LintDesk.Proofs.Desk.Collecting
import LintDesk.Proofs.Cli.Agreement
import LintDesk.Proofs.Edit.ReportOrder
import LintDesk.Proofs.Path.Lexical
import LintDesk.Proofs.Config.Formats
import LintDesk.Proofs.Config.Chains
import LintDesk.Proofs.Config.Nearest
import LintDesk.Proofs.Edit.Positions
import LintDesk.Proofs.Edit.Placement
import LintDesk.Proofs.Document.Folders
import LintDesk.Proofs.Document.RelativePaths
import LintDesk.Proofs.Url.Written
import LintDesk.Proofs.Settings.Folders
import LintDesk.Proofs.Url.PathTexts
import LintDesk.Proofs.Server.WatchedFiles
import LintDesk.Proofs.Text.Terminators
import LintDesk.Proofs.Edit.Slices
import LintDesk.Proofs.Cli.Discovery
import LintDesk.Proofs.Rule.CodeBlocks
