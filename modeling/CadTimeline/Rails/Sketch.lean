import CadTimeline.Action.File
import CadTimeline.Output.FileName

/-!
# Rail sketches

Sketches that are derived from the segments of other sketches: their common form,
and those of single segments.
-/

namespace CadTimeline

/-- A derived sketch file. -/
structure RailSketch where
  path : Path
  text : String
deriving Repr

namespace RailSketch

/-- The lines before the segments of a sketch file. -/
def preamble (unit : LengthUnit) (axis : Axis) (offset : Float) : String :=
  File.row [ActionKind.sketch.word] ++ File.row [unit.word] ++
    File.row [axis.word, Number.plain offset]

end RailSketch

/-- The sketches of the segments that are tagged as co rails. -/
def Action.coRails (action : Action) (root : Path) : List RailSketch :=
  match action.plane? with
  | none => []
  | some (axis, offset) =>
    action.segments.filterMap fun segment =>
      segment.coRail?.map fun rail =>
        let name := FileName.sketch axis.word offset s!"{action.destination.name}_{rail}"
        { path := (action.destination.railsDirectory root).join name
          text := RailSketch.preamble action.unit axis offset ++ File.record segment }

end CadTimeline
