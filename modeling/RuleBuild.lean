import RuleBuild.Main
import RuleBuild.Proofs.StoreCalls
import RuleBuild.Proofs.Tour
import RuleBuild.Proofs.BuildCalls
import RuleBuild.Proofs.ProblemList.History
import RuleBuild.Proofs.BuildMarkers
import RuleBuild.Proofs.FileSystem.Walk
import RuleBuild.Proofs.Path.Extension
import RuleBuild.Proofs.FileSystem.Scan
import RuleBuild.Proofs.FullBuild
import RuleBuild.Proofs.Coverage
import RuleBuild.Proofs.Path.Identity
import RuleBuild.Proofs.Isolation
import RuleBuild.Proofs.Cancellation
import RuleBuild.Proofs.ProblemList.Totals
import RuleBuild.Proofs.Leftovers
import RuleBuild.Proofs.IncrementalBuild
import RuleBuild.Proofs.Text.Utf8
import RuleBuild.Proofs.Json.Literal
import RuleBuild.Proofs.Json.Pretty
import RuleBuild.Proofs.FileSystem.Write
import RuleBuild.Proofs.Record
import RuleBuild.Proofs.ProblemList.Stored
import RuleBuild.Proofs.ProblemList.Sharing
import RuleBuild.Proofs.Outcome
import RuleBuild.Proofs.Severity
import RuleBuild.Proofs.Session
import RuleBuild.Proofs.Batching
import RuleBuild.Proofs.OutputDirectory
import RuleBuild.Proofs.ChangedFile
import RuleBuild.Proofs.RootSpelling
import RuleBuild.Proofs.Record.Grammar
import RuleBuild.Proofs.Outcome.Grammar
import RuleBuild.Proofs.ProblemList.OtherFormat
import RuleBuild.Proofs.Compiler.ParserMessage
import RuleBuild.Proofs.Compiler.Failure
import RuleBuild.Proofs.Compiler.Calls
import RuleBuild.Proofs.Path.Steps
import RuleBuild.Proofs.Outcome.Diagnostics
import RuleBuild.Proofs.Compiler.FirstMessage
import RuleBuild.Proofs.ProblemList.Agreement
import RuleBuild.Proofs.Path.Parent
import RuleBuild.Proofs.Configuration.Faults
import RuleBuild.Proofs.Configuration.Discovery
import RuleBuild.Proofs.Settings
import RuleBuild.Proofs.Runtimes.Registry
import RuleBuild.Proofs.Runtimes.Jars
import RuleBuild.Proofs.ProblemList.Listing
