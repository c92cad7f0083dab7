import CadTimeline.Analysis

/-!
# Output files

The files that a timeline becomes: one for every action, one for every co rail of
its segments, and the cross rails.
-/

namespace CadTimeline

/-- A file to be written. -/
structure Output where
  path : Path
  text : String
  kind : ActionKind
  /-- The line of the header of the block that the file comes from. -/
  line : Nat
  /-- How the file is named in a collision. -/
  producer : Location
deriving Repr

namespace Analysis

/-- How many sketches of the timeline share directory and name with an action. -/
def familySize (analysis : Analysis) (root : Path) (action : Action) : Nat :=
  (analysis.sketches.filter fun sketch =>
    (sketch.destination.directory root).same (action.destination.directory root) &&
      sketch.destination.name == action.destination.name).length

/-- The name of the file of an action. Sketches of one name in one directory are
told apart by their planes. -/
def fileName (analysis : Analysis) (root : Path) (action : Action) : String :=
  match action.plane? with
  | some (axis, offset) =>
    if analysis.familySize root action > 1 then
      FileName.sketch axis.word offset action.destination.name
    else FileName.action action.destination.name
  | none => FileName.action action.destination.name

def actionOutput (analysis : Analysis) (root : Path) (action : Action) : Output where
  path := (action.destination.directory root).join (analysis.fileName root action)
  text := action.file
  kind := action.kind
  line := action.line
  producer :=
    ⟨analysis.file, action.line, s!"{action.kind.word} {action.destination.name}"⟩

/-- The output of a derived sketch. -/
def railOutput (analysis : Analysis) (line : Nat) (rail : RailSketch) : Output where
  path := rail.path
  text := rail.text
  kind := .sketch
  line := line
  producer := ⟨analysis.file, line, s!"rail {rail.path.text}"⟩

end Analysis

end CadTimeline
