import CadTimeline.Axis
import CadTimeline.Output.Destination
import CadTimeline.Record.Body
import CadTimeline.Schema.Catalogue
import CadTimeline.Unit

/-!
# Actions

An action block after conversion: where its file goes and what it holds.
-/

namespace CadTimeline

structure Action where
  kind : ActionKind
  destination : Destination
  unit : LengthUnit
  records : List Record
  /-- The line of the block header. -/
  line : Nat
deriving Repr

namespace Action

/-- The action of a block of this kind. -/
def ofBlock (kind : ActionKind) (scope : Scope) (unit : LengthUnit) (block : Block) :
    Except LineIssue Action := do
  let schema ← (Keyword.action kind).findSchema.mapError (⟨block.number, ·⟩)
  let destination ← (Destination.ofHeader scope block.header).mapError (⟨block.number, ·⟩)
  let records ← Body.read schema scope block
  return ⟨kind, destination, unit, records, block.number⟩

/-- The schema of an action is always found. -/
theorem ofBlock_eq (kind : ActionKind) (scope : Scope) (unit : LengthUnit) (block : Block) :
    ofBlock kind scope unit block = (do
      let destination ← (Destination.ofHeader scope block.header).mapError (⟨block.number, ·⟩)
      let records ← Body.read kind.schema scope block
      return ⟨kind, destination, unit, records, block.number⟩) := by
  rw [ofBlock, Keyword.findSchema_action]
  rfl

def isPlane (record : Record) : Bool :=
  record.word == "offset_plane"

/-- The normal and the offset of the plane of a sketch. -/
def plane? (action : Action) : Option (Axis × Float) :=
  if action.kind = .sketch then
    match (action.records.find? isPlane).map Record.values with
    | some [axis, offset] => do
      let axis ← axis.toText?.bind Axis.ofWord?
      return (axis, ← offset.toFloat?)
    | _ => none
  else none

/-- The segments of a sketch. -/
def segments (action : Action) : List Record :=
  action.records.filter fun record => !isPlane record

end Action

end CadTimeline
