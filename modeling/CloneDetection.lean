import CloneDetection.Clone.Finder
import CloneDetection.Clone.Group
import CloneDetection.Clone.Index
import CloneDetection.Clone.Place
import CloneDetection.Clone.Region
import CloneDetection.Collector.Call
import CloneDetection.Collector.Duplication
import CloneDetection.Collector.Registry
import CloneDetection.Collector.Survey
import CloneDetection.Command.Arguments
import CloneDetection.Command.Invocation
import CloneDetection.Command.Parameter
import CloneDetection.Double.Basic
import CloneDetection.Double.Decimal
import CloneDetection.Double.Layout
import CloneDetection.Double.Reading
import CloneDetection.Entries
import CloneDetection.Finding.Basic
import CloneDetection.Finding.Confidence
import CloneDetection.Json.Basic
import CloneDetection.Json.Reading
import CloneDetection.Line.Blinding
import CloneDetection.Line.Category
import CloneDetection.Line.Normal
import CloneDetection.Main
import CloneDetection.Ordered
import CloneDetection.Path.Basic
import CloneDetection.Path.Glob
import CloneDetection.Proofs.Clone.Agreement
import CloneDetection.Proofs.Clone.Assembly
import CloneDetection.Proofs.Clone.Block
import CloneDetection.Proofs.Clone.Bounds
import CloneDetection.Proofs.Clone.Completeness
import CloneDetection.Proofs.Clone.Filling
import CloneDetection.Proofs.Clone.Group
import CloneDetection.Proofs.Clone.Growth
import CloneDetection.Proofs.Clone.Independent
import CloneDetection.Proofs.Clone.Maximality
import CloneDetection.Proofs.Clone.Nesting
import CloneDetection.Proofs.Clone.Place
import CloneDetection.Proofs.Clone.Range
import CloneDetection.Proofs.Clone.Search
import CloneDetection.Proofs.Clone.Session
import CloneDetection.Proofs.Clone.Unrelated
import CloneDetection.Proofs.Collector.Blocks
import CloneDetection.Proofs.Collector.Calls
import CloneDetection.Proofs.Collector.CopiedPair
import CloneDetection.Proofs.Collector.Counts
import CloneDetection.Proofs.Collector.Indexing
import CloneDetection.Proofs.Collector.Limits
import CloneDetection.Proofs.Collector.Ordering
import CloneDetection.Proofs.Collector.Pool
import CloneDetection.Proofs.Collector.Progress
import CloneDetection.Proofs.Collector.Schedule
import CloneDetection.Proofs.Collector.Settling
import CloneDetection.Proofs.Collector.Verbatim
import CloneDetection.Proofs.Double.Arithmetic
import CloneDetection.Proofs.Double.Nearest
import CloneDetection.Proofs.Double.Order
import CloneDetection.Proofs.Double.Rounding
import CloneDetection.Proofs.Double.Shortest
import CloneDetection.Proofs.Finding.Curve
import CloneDetection.Proofs.Finding.Description
import CloneDetection.Proofs.Finding.Key
import CloneDetection.Proofs.Finding.Order
import CloneDetection.Proofs.Finding.Reported
import CloneDetection.Proofs.Json.Numbers
import CloneDetection.Proofs.Json.RoundTrip
import CloneDetection.Proofs.Json.Strings
import CloneDetection.Proofs.Line.Grammar
import CloneDetection.Proofs.Line.Renaming
import CloneDetection.Proofs.Line.Runs
import CloneDetection.Proofs.Line.Table
import CloneDetection.Proofs.Lookup
import CloneDetection.Proofs.Path.Components
import CloneDetection.Proofs.Path.Containment
import CloneDetection.Proofs.Path.Matching
import CloneDetection.Proofs.Path.Within
import CloneDetection.Proofs.Report.Lossless
import CloneDetection.Proofs.Scan.Cancellation
import CloneDetection.Proofs.Scan.Checks
import CloneDetection.Proofs.Scan.Moves
import CloneDetection.Proofs.Scan.Uncancelled
import CloneDetection.Proofs.Selection.Contained
import CloneDetection.Proofs.Selection.Found
import CloneDetection.Proofs.Selection.Opening
import CloneDetection.Proofs.Selection.Patterns
import CloneDetection.Proofs.Selection.Qualifying
import CloneDetection.Proofs.Selection.Selected
import CloneDetection.Proofs.Selection.Stacking
import CloneDetection.Proofs.Settings.Document
import CloneDetection.Proofs.Settings.Domain
import CloneDetection.Proofs.Settings.Entries
import CloneDetection.Proofs.Settings.Keywords
import CloneDetection.Proofs.Settings.Layers
import CloneDetection.Proofs.Settings.Merging
import CloneDetection.Proofs.Sorting
import CloneDetection.Proofs.Text.Decoding
import CloneDetection.Proofs.Text.Digits
import CloneDetection.Proofs.Text.Encoding
import CloneDetection.Proofs.Text.Regex
import CloneDetection.Proofs.Text.Splitting
import CloneDetection.Proofs.Toml.Keys
import CloneDetection.Proofs.Traversal
import CloneDetection.Proofs.Tree.Distinct
import CloneDetection.Proofs.Tree.Leading
import CloneDetection.Proofs.Tree.Listing
import CloneDetection.Proofs.Tree.RealPath
import CloneDetection.Proofs.Tree.Room
import CloneDetection.Proofs.Window.Breaks
import CloneDetection.Proofs.Window.Edits
import CloneDetection.Proofs.Window.Kept
import CloneDetection.Proofs.Window.Lines
import CloneDetection.Proofs.Window.Message
import CloneDetection.Report.Basic
import CloneDetection.Scan.Basic
import CloneDetection.Scan.Cancellation
import CloneDetection.Scan.Event
import CloneDetection.Selection.Content
import CloneDetection.Selection.Discovery
import CloneDetection.Selection.Given
import CloneDetection.Selection.Language
import CloneDetection.Selection.Pattern
import CloneDetection.Settings.Basic
import CloneDetection.Settings.Document
import CloneDetection.Settings.Field
import CloneDetection.Settings.Layer
import CloneDetection.Settings.Value
import CloneDetection.Sorting
import CloneDetection.Sorting.Merging
import CloneDetection.Sorting.Run
import CloneDetection.Sorting.Search
import CloneDetection.Text.Basic
import CloneDetection.Text.CharClass
import CloneDetection.Text.Hexadecimal
import CloneDetection.Text.Lines
import CloneDetection.Text.Lower
import CloneDetection.Text.Quoted
import CloneDetection.Text.Utf8
import CloneDetection.Text.Word
import CloneDetection.Toml.Moment
import CloneDetection.Toml.Number
import CloneDetection.Toml.Quoted
import CloneDetection.Toml.Reading
import CloneDetection.Toml.Table
import CloneDetection.Tree.Basic
import CloneDetection.Tree.Change
import CloneDetection.Tree.Resolve
import CloneDetection.Tree.Visit
import CloneDetection.Window.Basic
import CloneDetection.Window.Digest
