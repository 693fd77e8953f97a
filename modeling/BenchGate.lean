import BenchGate.Main
import BenchGate.Proofs.Json.Reading
import BenchGate.Proofs.WrittenSummary
import BenchGate.Proofs.Files.Closed
import BenchGate.Proofs.Files.Following
import BenchGate.Proofs.Files.Steps
import BenchGate.Proofs.Files.Directories
import BenchGate.Proofs.Promotion
import BenchGate.Proofs.Loading
import BenchGate.Proofs.AnalyzerRun
import BenchGate.Proofs.RegressionRun
import BenchGate.Proofs.Files.Names
import BenchGate.Proofs.Files.Within
import BenchGate.Proofs.Files.Below
import BenchGate.Proofs.Files.Patterns
import BenchGate.Proofs.Files.Searching
import BenchGate.Proofs.RecordFiles
import BenchGate.Proofs.Merging
import BenchGate.Proofs.Files.Found
import BenchGate.Proofs.Files.Growth
import BenchGate.Proofs.FailureRate
import BenchGate.Proofs.Measurements
import BenchGate.Proofs.Agreement
import BenchGate.Proofs.ExitCodes
import BenchGate.Proofs.StoppedReports
import BenchGate.Proofs.Binary64.Errors
import BenchGate.Proofs.Binary64.Values
import BenchGate.Proofs.AtTolerance
import BenchGate.Proofs.Improvements
import BenchGate.Proofs.Increases
import BenchGate.Proofs.Counts
import BenchGate.Proofs.Text.ByteOrder
import BenchGate.Proofs.Suites
import BenchGate.Proofs.Statistics
import BenchGate.Proofs.FurtherFailures
import BenchGate.Proofs.Json.Decoding
import BenchGate.Proofs.Layering
import BenchGate.Proofs.Masking
import BenchGate.Proofs.AtCeiling
import BenchGate.Proofs.Metadata
import BenchGate.Proofs.Hints
import BenchGate.Proofs.WrittenAverages
