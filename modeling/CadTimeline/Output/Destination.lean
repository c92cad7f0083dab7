import CadTimeline.Output.Path
import CadTimeline.Output.Segments
import CadTimeline.Record.Value
import CadTimeline.Timeline.Line

/-!
# Destinations

Where the file of an action goes: the folder and the name from the header of its
block, and the component it belongs to.
-/

namespace CadTimeline

structure Destination where
  folder : List String
  name : String
  /-- The component path, empty if the header gives none. -/
  component : List String
deriving DecidableEq, Repr

namespace Destination

/-- Whether the name can be the stem of a file name. -/
def isStem (name : String) : Bool :=
  name != "" && name != "." && name != ".." && !name.toList.any fun c => c == '/' || c == '\\'

/-- The component path in a header field. -/
def readComponent (scope : Scope) (text : String) : Except Issue (List String) := do
  let segments ← Segments.split "component path" (← scope.substitute text)
  if segments.isEmpty then throw .emptyComponent else return segments

/-- The destination in the header of an action block. -/
def ofHeader (scope : Scope) (header : Line) : Except Issue Destination := do
  match header.fields with
  | _ :: folder :: name :: rest =>
    if rest.length > 1 then throw (.actionHeader header.firstWord header.fields.length)
    let folder ← Segments.split "folder" (← scope.substitute folder.text)
    let name ← scope.substitute name.text
    if !isStem name then throw (.fileStem name)
    match rest.head? with
    | some component => return ⟨folder, name, ← readComponent scope component.text⟩
    | none => return ⟨folder, name, []⟩
  | fields => throw (.actionHeader header.firstWord fields.length)

/-- The segments between the output root and the file. -/
def segments (destination : Destination) : List String :=
  destination.folder ++ destination.component

def directory (destination : Destination) (root : Path) : Path :=
  root.joinAll destination.segments

/-- The directory beside the action's own that holds its co rails. -/
def railsDirectory (destination : Destination) (root : Path) : Path :=
  match destination.segments.getLast? with
  | some last => root.joinAll (destination.segments.dropLast ++ [last ++ "_rails"])
  | none => root.join "rails"

/-- The group component, written into action files. -/
def group? (destination : Destination) : Option String :=
  destination.component.getLast?

end Destination

end CadTimeline
