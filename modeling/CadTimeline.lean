import CadTimeline.Main
import CadTimeline.Proofs.Compile.Session
import CadTimeline.Proofs.Reading
import CadTimeline.Store.Memory
import CadTimeline.Proofs.Decimal.Characters
import CadTimeline.Proofs.Output.FileName
import CadTimeline.Proofs.Output.Containment
import CadTimeline.Proofs.Expr.Grouping
import CadTimeline.Proofs.Expr.Sequence
import CadTimeline.Proofs.Expr.Complete
import CadTimeline.Proofs.Decimal.Spelling
import CadTimeline.Proofs.Expr.Spelling
import CadTimeline.Proofs.Expr.Layout
import CadTimeline.Proofs.Expr.Parsing
import CadTimeline.Proofs.Binary64.Bits
import CadTimeline.Proofs.Decimal.RoundTrip
import CadTimeline.Proofs.Expr.Plain
import CadTimeline.Proofs.Parameter.Substitution
import CadTimeline.Proofs.Timeline.Row
import CadTimeline.Proofs.Timeline.Source
import CadTimeline.Proofs.Parameter.Table
import CadTimeline.Proofs.Record.Value
import CadTimeline.Proofs.Schema.Keys
import CadTimeline.Proofs.Record.Texts
import CadTimeline.Proofs.Record.Body
import CadTimeline.Proofs.Record.ReadBack
import CadTimeline.Proofs.Record.Order
import CadTimeline.Proofs.Timeline.RowLines
import CadTimeline.Proofs.Action.File
import CadTimeline.Proofs.Action.HiddenKey
import CadTimeline.Proofs.Action.ReadBack
import CadTimeline.Proofs.Record.Acceptance
import CadTimeline.Proofs.Parameter.Definitions
import CadTimeline.Proofs.Parameter.Inlining
import CadTimeline.Proofs.Parameter.References
import CadTimeline.Proofs.Timeline.Append
import CadTimeline.Proofs.Record.Known
import CadTimeline.Proofs.Reading.Names
import CadTimeline.Proofs.Reading.Units
import CadTimeline.Proofs.Reading.Past
import CadTimeline.Proofs.Compile.Run
import CadTimeline.Proofs.Action.Translation
import CadTimeline.Proofs.Timeline.Written
import CadTimeline.Proofs.Output.Segments
import CadTimeline.Proofs.Record.Source
import CadTimeline.Proofs.Output.Header
import CadTimeline.Proofs.Action.Source
import CadTimeline.Proofs.Parameter.Order
import CadTimeline.Proofs.Timeline.Grouping
import CadTimeline.Proofs.Alike
import CadTimeline.Proofs.Timeline.Renumbering
import CadTimeline.Proofs.Compile.Layout
import CadTimeline.Proofs.Trace.Basic
import CadTimeline.Proofs.Trace.Block
import CadTimeline.Proofs.Trace.Reading
import CadTimeline.Proofs.Reading.Blame
import CadTimeline.Proofs.Action.Cells
import CadTimeline.Proofs.Decimal.Finite
import CadTimeline.Proofs.Binary64.Quotient
import CadTimeline.Proofs.Record.Origin
import CadTimeline.Proofs.Rails.Block
import CadTimeline.Proofs.Rails.Segment
import CadTimeline.Proofs.Rails.Units
import CadTimeline.Proofs.Output.Numbers
import CadTimeline.Proofs.Timeline.Split
import CadTimeline.Proofs.Expr.Visits
import CadTimeline.Proofs.Parameter.Scan
import CadTimeline.Proofs.Parameter.Names
import CadTimeline.Proofs.Binary64.Equality
import CadTimeline.Proofs.Rails.Points
import CadTimeline.Proofs.Decimal.Equality
import CadTimeline.Proofs.Rails.Rows
import CadTimeline.Proofs.Action.Sketch
import CadTimeline.Proofs.Rails.Format
import CadTimeline.Proofs.Rails.CoRails
import CadTimeline.Proofs.Decimal.Places
import CadTimeline.Proofs.Output.Clash
import CadTimeline.Proofs.Rails.Paths
import CadTimeline.Proofs.Record.Tail
import CadTimeline.Proofs.Record.Tagged
import CadTimeline.Proofs.Output.Family
import CadTimeline.Proofs.Record.Rowless
import CadTimeline.Proofs.Rails.Definition
import CadTimeline.Proofs.Rails.Whole
import CadTimeline.Proofs.Record.Assembly
import CadTimeline.Proofs.Expr.FreeNames
import CadTimeline.Proofs.Binary64.Order
import CadTimeline.Proofs.Record.Integer
