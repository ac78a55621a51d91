import Taskboard.Analysis.Keys
import Taskboard.Analysis.Metric
import Taskboard.Analysis.Range
import Taskboard.Analysis.Report
import Taskboard.Calendar.Date
import Taskboard.Calendar.DateToken
import Taskboard.Calendar.Freeform
import Taskboard.Calendar.HeaderDate
import Taskboard.Calendar.Iso
import Taskboard.Calendar.Moment
import Taskboard.Chart.Basic
import Taskboard.Chart.Diagram
import Taskboard.Chart.Figure
import Taskboard.Chart.Palette
import Taskboard.Chart.Safety
import Taskboard.Chart.Stored
import Taskboard.Dependency.Cycle
import Taskboard.Dependency.Graph
import Taskboard.Fault
import Taskboard.Filter.Compare
import Taskboard.Filter.Rule
import Taskboard.Filter.Stored
import Taskboard.Json.Reader
import Taskboard.Json.Writer
import Taskboard.Number.Binary64
import Taskboard.Number.FixedPlaces
import Taskboard.Number.Reading
import Taskboard.Number.Rounding
import Taskboard.Number.Shortest
import Taskboard.Pattern.Reader
import Taskboard.Pattern.Search
import Taskboard.Pattern.Syntax
import Taskboard.Proofs.Analysis.Aggregation
import Taskboard.Proofs.Analysis.Answering
import Taskboard.Proofs.Analysis.Collecting
import Taskboard.Proofs.Analysis.Distribution
import Taskboard.Proofs.Analysis.Lanes
import Taskboard.Proofs.Analysis.Rereading
import Taskboard.Proofs.Analysis.TimeSeries
import Taskboard.Proofs.Calendar.Duration
import Taskboard.Proofs.Calendar.Midnight
import Taskboard.Proofs.Calendar.Milliseconds
import Taskboard.Proofs.Calendar.ShortText
import Taskboard.Proofs.Calendar.TextOrder
import Taskboard.Proofs.Calendar.Thousandth
import Taskboard.Proofs.Calendar.Years
import Taskboard.Proofs.Chart.Bars
import Taskboard.Proofs.Chart.Columns
import Taskboard.Proofs.Chart.Dates
import Taskboard.Proofs.Chart.Diagram
import Taskboard.Proofs.Chart.Lines
import Taskboard.Proofs.Chart.Marks
import Taskboard.Proofs.Chart.Plain
import Taskboard.Proofs.Chart.Points
import Taskboard.Proofs.Chart.Safety
import Taskboard.Proofs.Chart.Scheduled
import Taskboard.Proofs.Chart.Stored
import Taskboard.Proofs.Chart.Traces
import Taskboard.Proofs.Chart.Typed
import Taskboard.Proofs.Dependency.Cycles
import Taskboard.Proofs.Dependency.Descent
import Taskboard.Proofs.Dependency.Loop
import Taskboard.Proofs.Dependency.Malformed
import Taskboard.Proofs.Dependency.Search
import Taskboard.Proofs.Dependency.Stack
import Taskboard.Proofs.Dependency.Trace
import Taskboard.Proofs.Dependency.Walk
import Taskboard.Proofs.Dependency.WalkRun
import Taskboard.Proofs.Filter.Compare
import Taskboard.Proofs.Filter.Literal
import Taskboard.Proofs.Filter.Rewriting
import Taskboard.Proofs.Filter.Spelling
import Taskboard.Proofs.Json.Characters
import Taskboard.Proofs.Json.Escapes
import Taskboard.Proofs.Json.Faithful
import Taskboard.Proofs.Json.Leaves
import Taskboard.Proofs.Json.Plain
import Taskboard.Proofs.Json.RoundTrip
import Taskboard.Proofs.Json.Scalars
import Taskboard.Proofs.Number.Leading
import Taskboard.Proofs.Number.Monotone
import Taskboard.Proofs.Number.Rounding
import Taskboard.Proofs.Number.Scaling
import Taskboard.Proofs.Number.Shortest
import Taskboard.Proofs.Number.Text
import Taskboard.Proofs.Number.Whole
import Taskboard.Proofs.Pattern.Reader
import Taskboard.Proofs.Query
import Taskboard.Proofs.Schedule.Debounce
import Taskboard.Proofs.Schedule.Dragging
import Taskboard.Proofs.Schedule.Exact
import Taskboard.Proofs.Schedule.Fitting
import Taskboard.Proofs.Schedule.Frames
import Taskboard.Proofs.Schedule.Handles
import Taskboard.Proofs.Schedule.Pending
import Taskboard.Proofs.Schedule.Persistence
import Taskboard.Proofs.Schedule.Projection
import Taskboard.Proofs.Schedule.Record
import Taskboard.Proofs.Schedule.Ringing
import Taskboard.Proofs.Schedule.Run
import Taskboard.Proofs.Schedule.Sendable
import Taskboard.Proofs.Schedule.Share
import Taskboard.Proofs.Schedule.Stored
import Taskboard.Proofs.Service.Asking
import Taskboard.Proofs.Service.Freshness
import Taskboard.Proofs.Service.Listing
import Taskboard.Proofs.Service.Moving
import Taskboard.Proofs.Service.Reopening
import Taskboard.Proofs.Service.Sending
import Taskboard.Proofs.Sort.Clashes
import Taskboard.Proofs.Sort.Custom
import Taskboard.Proofs.Sort.Merge
import Taskboard.Proofs.Sort.Missing
import Taskboard.Proofs.Sort.Numbers
import Taskboard.Proofs.Sort.Order
import Taskboard.Proofs.Sort.Part
import Taskboard.Proofs.Sort.Reals
import Taskboard.Proofs.Sort.Run
import Taskboard.Proofs.Sort.Search
import Taskboard.Proofs.Sort.Stable
import Taskboard.Proofs.Store.Encoding
import Taskboard.Proofs.Store.Files
import Taskboard.Proofs.Store.Loading
import Taskboard.Proofs.Store.Saved
import Taskboard.Proofs.Store.Saving
import Taskboard.Proofs.Task.Delimiter
import Taskboard.Proofs.Task.Document
import Taskboard.Proofs.Task.Framing
import Taskboard.Proofs.Text.Lowercase
import Taskboard.Proofs.Value.Captions
import Taskboard.Proofs.Value.Measures
import Taskboard.Proofs.Value.Numbers
import Taskboard.Proofs.Value.Places
import Taskboard.Proofs.Value.Printing
import Taskboard.Proofs.Yaml.Block
import Taskboard.Proofs.Yaml.Cursor
import Taskboard.Proofs.Yaml.Ink
import Taskboard.Proofs.Yaml.Layout
import Taskboard.Proofs.Yaml.Page
import Taskboard.Proofs.Yaml.Plain
import Taskboard.Proofs.Yaml.Quoted
import Taskboard.Proofs.Yaml.RoundTrip
import Taskboard.Proofs.Yaml.Scalar
import Taskboard.Proofs.Yaml.Schema
import Taskboard.Proofs.Yaml.Tree
import Taskboard.Proofs.Yaml.Values
import Taskboard.Proofs.Yaml.Written
import Taskboard.Query
import Taskboard.Schedule.Axis
import Taskboard.Schedule.Handle
import Taskboard.Schedule.Row
import Taskboard.Schedule.Session
import Taskboard.Schedule.Surface
import Taskboard.Service.Basic
import Taskboard.Service.Charts
import Taskboard.Service.Handle
import Taskboard.Service.Reply
import Taskboard.Service.Request
import Taskboard.Service.Route
import Taskboard.Service.Schedule
import Taskboard.Service.Tasks
import Taskboard.Settings
import Taskboard.Sort.Builtin
import Taskboard.Sort.Custom
import Taskboard.Sort.Merge
import Taskboard.Sort.Run
import Taskboard.Sort.Search
import Taskboard.Sort.Stable
import Taskboard.Sort.Stored
import Taskboard.Store.Basic
import Taskboard.Store.Definitions
import Taskboard.Store.Path
import Taskboard.Store.Schedule
import Taskboard.Store.Tree
import Taskboard.Task.Basic
import Taskboard.Task.Document
import Taskboard.Text.Base64
import Taskboard.Text.Blank
import Taskboard.Text.Digit
import Taskboard.Text.Find
import Taskboard.Text.Lines
import Taskboard.Text.Lowercase
import Taskboard.Text.Printable
import Taskboard.Text.Quoted
import Taskboard.Text.Ranges
import Taskboard.Text.Uppercase
import Taskboard.Text.Utf8
import Taskboard.Text.Word
import Taskboard.Value.Basic
import Taskboard.Value.Number
import Taskboard.Value.Text
import Taskboard.Value.Time
import Taskboard.Yaml.Content
import Taskboard.Yaml.Cursor
import Taskboard.Yaml.Lexeme
import Taskboard.Yaml.Node
import Taskboard.Yaml.Schema
import Taskboard.Yaml.Token
import Taskboard.Yaml.Writer
