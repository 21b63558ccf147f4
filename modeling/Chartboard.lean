import Chartboard.Canvas.Board
import Chartboard.Canvas.Identifier
import Chartboard.Canvas.Message
import Chartboard.Command.Arguments
import Chartboard.Command.Execution
import Chartboard.Command.Report
import Chartboard.Decimal.Printer
import Chartboard.Decimal.Reader
import Chartboard.Diagram.Basic
import Chartboard.Diagram.Header
import Chartboard.Diagram.Reader
import Chartboard.Diagram.Vocabulary
import Chartboard.Flow.Graph
import Chartboard.Flow.Link
import Chartboard.Flow.Printer
import Chartboard.Flow.Statement
import Chartboard.Json
import Chartboard.Layout.Basic
import Chartboard.Layout.Metrics
import Chartboard.Layout.Rect
import Chartboard.Main
import Chartboard.Plan.Basic
import Chartboard.Plan.Item
import Chartboard.Proofs.Canvas.Board
import Chartboard.Proofs.Canvas.Boards
import Chartboard.Proofs.Canvas.Calls
import Chartboard.Proofs.Checked.Compiler
import Chartboard.Proofs.Checked.Cursor
import Chartboard.Proofs.Checked.Depth
import Chartboard.Proofs.Checked.Flow
import Chartboard.Proofs.Checked.Layout
import Chartboard.Proofs.Checked.Link
import Chartboard.Proofs.Checked.Progress
import Chartboard.Proofs.Checked.Sequence
import Chartboard.Proofs.Diagram.Captions
import Chartboard.Proofs.Diagram.LongLines
import Chartboard.Proofs.Diagram.Noise
import Chartboard.Proofs.Diagram.Rows
import Chartboard.Proofs.Flow.Chains
import Chartboard.Proofs.Flow.Joining
import Chartboard.Proofs.Flow.Labels
import Chartboard.Proofs.Flow.Mentions
import Chartboard.Proofs.Flow.Operators
import Chartboard.Proofs.Flow.Records
import Chartboard.Proofs.Flow.RoundTrip
import Chartboard.Proofs.Flow.Spelling
import Chartboard.Proofs.Flow.Splitting
import Chartboard.Proofs.Flow.WellFormed
import Chartboard.Proofs.Layout.Arrangement
import Chartboard.Proofs.Layout.Covering
import Chartboard.Proofs.Layout.Distance
import Chartboard.Proofs.Layout.Layers
import Chartboard.Proofs.Layout.Lifelines
import Chartboard.Proofs.Layout.Overriding
import Chartboard.Proofs.Layout.Sizes
import Chartboard.Proofs.Layout.Turning
import Chartboard.Proofs.Layout.Union
import Chartboard.Proofs.Plan.Anchoring
import Chartboard.Proofs.Plan.Correspondence
import Chartboard.Proofs.Plan.Framing
import Chartboard.Proofs.Plan.Landing
import Chartboard.Proofs.Plan.Moving
import Chartboard.Proofs.Plan.Size
import Chartboard.Proofs.Plan.Sound
import Chartboard.Proofs.Run.Accounting
import Chartboard.Proofs.Run.Drawing
import Chartboard.Proofs.Run.Fates
import Chartboard.Proofs.Run.Progress
import Chartboard.Proofs.Run.References
import Chartboard.Proofs.Run.Renaming
import Chartboard.Proofs.Run.Schedule
import Chartboard.Proofs.Run.Serving
import Chartboard.Proofs.Run.Sharing
import Chartboard.Proofs.Run.Stages
import Chartboard.Proofs.Run.Steps
import Chartboard.Proofs.Run.Stopping
import Chartboard.Proofs.Run.Trace
import Chartboard.Proofs.Run.Window
import Chartboard.Proofs.Sequence.Appearances
import Chartboard.Proofs.Sequence.Participants
import Chartboard.Proofs.Sequence.RoundTrip
import Chartboard.Proofs.Sequence.Spacing
import Chartboard.Proofs.Text.Bytes
import Chartboard.Proofs.Text.Cutting
import Chartboard.Proofs.Text.Quoting
import Chartboard.Proofs.Text.TrimmedLines
import Chartboard.Proofs.Text.Trimming
import Chartboard.Run.Basic
import Chartboard.Run.Generate
import Chartboard.Run.Step
import Chartboard.Sequence.Lines
import Chartboard.Sequence.Message
import Chartboard.Settings
import Chartboard.Text.Alphanumeric
import Chartboard.Text.Blank
import Chartboard.Text.Search
