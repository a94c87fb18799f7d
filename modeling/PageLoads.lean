import PageLoads.Analysis.Findings
import PageLoads.Analysis.Options
import PageLoads.CommandLine.Arguments
import PageLoads.CommandLine.Program
import PageLoads.Console
import PageLoads.Distribution
import PageLoads.Duration
import PageLoads.Experiment
import PageLoads.Fault
import PageLoads.Frame.Bits
import PageLoads.Frame.Block
import PageLoads.Frame.Checksum
import PageLoads.Frame.Expansion
import PageLoads.Frame.Former
import PageLoads.Frame.Head
import PageLoads.Frame.Literals
import PageLoads.Frame.PrefixCode
import PageLoads.Frame.Quarters
import PageLoads.Frame.Sequences
import PageLoads.Frame.Stage
import PageLoads.Frame.StateTable
import PageLoads.Frame.Weights
import PageLoads.Frame.Whole
import PageLoads.Frame.Written
import PageLoads.HostRole
import PageLoads.Interner
import PageLoads.Json.Number
import PageLoads.Json.Printer
import PageLoads.Json.Reader
import PageLoads.Json.Value
import PageLoads.KeyedList
import PageLoads.Line.Banner
import PageLoads.Line.DriverLine
import PageLoads.Line.ProxyLine
import PageLoads.Line.Stamp
import PageLoads.Log.DriverLog
import PageLoads.Log.Lines
import PageLoads.Log.Opening
import PageLoads.Log.ProxyLog
import PageLoads.Log.SimulatorLog
import PageLoads.Log.Tracker
import PageLoads.Main
import PageLoads.Number.Binary64
import PageLoads.Number.Decimal
import PageLoads.Number.LittleEndian
import PageLoads.Number.Printed
import PageLoads.PageLoad
import PageLoads.Pattern
import PageLoads.Proofs.Analysis.Effects
import PageLoads.Proofs.Analysis.Order
import PageLoads.Proofs.Analysis.Steps
import PageLoads.Proofs.Analysis.TableFiles
import PageLoads.Proofs.Behind
import PageLoads.Proofs.CommandLine.ParseEffects
import PageLoads.Proofs.Distribution.Buckets
import PageLoads.Proofs.Distribution.Cumulate
import PageLoads.Proofs.Distribution.Exact
import PageLoads.Proofs.Distribution.TableText
import PageLoads.Proofs.Duration.Clock
import PageLoads.Proofs.Except
import PageLoads.Proofs.Experiment.CompressedLogs
import PageLoads.Proofs.Experiment.Compression
import PageLoads.Proofs.Experiment.Gathered
import PageLoads.Proofs.Experiment.HostTask
import PageLoads.Proofs.Experiment.Hosts
import PageLoads.Proofs.Experiment.Listing
import PageLoads.Proofs.Experiment.LoadNumbers
import PageLoads.Proofs.Experiment.Parsed
import PageLoads.Proofs.Experiment.Running
import PageLoads.Proofs.Experiment.Schedule
import PageLoads.Proofs.Interner
import PageLoads.Proofs.Interner.Sharing
import PageLoads.Proofs.Json.Hundredths
import PageLoads.Proofs.Json.Number
import PageLoads.Proofs.Json.Parsed
import PageLoads.Proofs.Json.RoundTrip
import PageLoads.Proofs.Json.Text
import PageLoads.Proofs.Json.Value
import PageLoads.Proofs.KeyedList
import PageLoads.Proofs.Line.Classified
import PageLoads.Proofs.Line.Faults
import PageLoads.Proofs.Line.Forms
import PageLoads.Proofs.Line.History
import PageLoads.Proofs.Line.PlainStamp
import PageLoads.Proofs.Line.Stamp
import PageLoads.Proofs.Line.WrittenBanner
import PageLoads.Proofs.Line.WrittenDriverLine
import PageLoads.Proofs.Line.WrittenProxyLine
import PageLoads.Proofs.Log.ClientLog
import PageLoads.Proofs.Log.DriverLog
import PageLoads.Proofs.Log.Framing
import PageLoads.Proofs.Log.Incremental
import PageLoads.Proofs.Log.Interspersed
import PageLoads.Proofs.Log.Parts
import PageLoads.Proofs.Log.ProxyLog
import PageLoads.Proofs.Log.Scan
import PageLoads.Proofs.Log.SimulatorLog
import PageLoads.Proofs.Log.WrittenRun
import PageLoads.Proofs.Number.Arithmetic
import PageLoads.Proofs.Number.Decimal
import PageLoads.Proofs.Number.Fixed
import PageLoads.Proofs.Number.Nearest
import PageLoads.Proofs.Number.Order
import PageLoads.Proofs.Number.Places
import PageLoads.Proofs.Number.TotalOrder
import PageLoads.Proofs.Number.Value
import PageLoads.Proofs.Pattern.Apart
import PageLoads.Proofs.Pattern.Cut
import PageLoads.Proofs.Pattern.Fields
import PageLoads.Proofs.Pattern.Overlap
import PageLoads.Proofs.Pattern.Preference
import PageLoads.Proofs.Pattern.Search
import PageLoads.Proofs.Pattern.Written
import PageLoads.Proofs.ResultFile.Codec
import PageLoads.Proofs.ResultFile.Exact
import PageLoads.Proofs.ResultFile.Refusals
import PageLoads.Proofs.ResultFile.RoundTrip
import PageLoads.Proofs.ResultFile.Spelling
import PageLoads.Proofs.Store.Compression
import PageLoads.Proofs.Store.Listing
import PageLoads.Proofs.Store.Names
import PageLoads.Proofs.Store.Order
import PageLoads.Proofs.Store.Paths
import PageLoads.Proofs.Store.Tree
import PageLoads.Proofs.Store.Writes
import PageLoads.Proofs.Summary.Conservation
import PageLoads.Proofs.Summary.LoadSummary
import PageLoads.Proofs.Summary.Narrowing
import PageLoads.Proofs.Summary.Sample
import PageLoads.Proofs.SummaryFile
import PageLoads.Proofs.SummaryFile.Overlay
import PageLoads.Proofs.Task.Basic
import PageLoads.Proofs.Task.Pool
import PageLoads.Proofs.Text.ByteOrder
import PageLoads.Proofs.Text.Digit
import PageLoads.Proofs.Text.Lossy
import PageLoads.Proofs.Text.Run
import PageLoads.Proofs.Text.Trim
import PageLoads.Proofs.Text.Utf8
import PageLoads.Proofs.Tracker.Calls
import PageLoads.Proofs.Tracker.History
import PageLoads.Proofs.Traffic.Arithmetic
import PageLoads.Proofs.Traffic.Counters
import PageLoads.Proofs.Traffic.Increments
import PageLoads.Proofs.Traffic.Sums
import PageLoads.Proofs.Traffic.Totals
import PageLoads.Proofs.Traffic.TrialTotals
import PageLoads.ResultFile.Codec
import PageLoads.ResultFile.Layout
import PageLoads.ResultFile.Storage
import PageLoads.ResultFile.Version
import PageLoads.Settings
import PageLoads.SettingsFile
import PageLoads.Store.Basic
import PageLoads.Store.Content
import PageLoads.Store.File
import PageLoads.Store.Name
import PageLoads.Store.Path
import PageLoads.Store.Room
import PageLoads.Summary.LoadSummary
import PageLoads.Summary.Selection
import PageLoads.SummaryFile
import PageLoads.Text.Blank
import PageLoads.Text.DecimalDigit
import PageLoads.Text.Lines
import PageLoads.Text.Lossy
import PageLoads.Text.Split
import PageLoads.Text.Stem
import PageLoads.Text.Utf8
import PageLoads.Traffic.Counters
import PageLoads.Traffic.Totals
import PageLoads.Trial
import PageLoads.Yaml.Document
import PageLoads.Yaml.Node
import PageLoads.Yaml.Scalar
import PageLoads.Yaml.Source
import PageLoads.Yaml.Token
