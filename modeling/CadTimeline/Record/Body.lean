import CadTimeline.Record.Tags
import CadTimeline.Schema.Basic
import CadTimeline.Timeline.Block

/-!
# The body of a block

Reading the body lines of a block against its schema. A line that a kind of the
schema accepts becomes a record; any other line is a data row of the record
before it.
-/

namespace CadTimeline

namespace Record

/-- The record of a line of this kind, without its rows. -/
def ofLine (kind : LineKind) (scope : Scope) (line : Line) : Except Issue Record := do
  let fields := line.fields.drop kind.key.length
  let (own, tagged) := if kind.railTags then Tag.groups fields else (fields, [])
  let tags ← tagged.mapM fun (word, names) => Tag.read scope word names
  if !kind.fields.accepts own.length then
    throw (.lineWidth kind.name kind.fields.bounds own.length)
  let values ← kind.fields.convert scope own
  return ⟨kind.key, values, [], tags, kind.keyShown, line.number⟩

end Record

namespace Body

/-- A record with the rows that it may own. -/
structure Owner where
  record : Record
  rows : Option Rows

/-- What has been read of a body: the records, the last one first, and the
indices of the slots that they filled. -/
structure Progress where
  owners : List Owner
  filled : List Nat

/-- Rows before the first record belong to a record without a key. -/
def start (schema : Schema) (header : Nat) : Progress :=
  match schema.leadingRows with
  | none => ⟨[], []⟩
  | some rows => ⟨[⟨⟨[], [], [], [], false, header⟩, some rows⟩], []⟩

/-- The record owns as many rows as it must. -/
def Owner.check (owner : Owner) : Except LineIssue Unit :=
  match owner.rows with
  | none => .ok ()
  | some rows =>
    if rows.count.accepts owner.record.rows.length then .ok ()
    else .error ⟨owner.record.line,
      .rowCount owner.record.key rows.count owner.record.rows.length⟩

/-- The last record is complete. -/
def Progress.checkLast (progress : Progress) : Except LineIssue Unit :=
  match progress.owners with
  | [] => .ok ()
  | owner :: _ => owner.check

def slotName (schema : Schema) (index : Nat) : String :=
  (schema.slots[index]?.map Slot.name).getD ""

/-- The slot may be filled once more, here. -/
def checkSlot (schema : Schema) (filled : List Nat) (found : Schema.Recognised) :
    Except Issue Unit :=
  if filled.contains found.index && !found.slot.occurs.repeatable then
    .error (.duplicateLine found.slot.name)
  else
    match filled with
    | last :: _ =>
      if schema.ordered && decide (found.index < last) then
        .error (.misplacedLine found.slot.name (slotName schema last))
      else .ok ()
    | [] => .ok ()

/-- The row may be added to the record, and has these values. -/
def readRow (scope : Scope) (record : Record) (rows : Rows) (line : Line) :
    Except Issue (List Value) := do
  if rows.count.most.any fun most => decide (most ≤ record.rows.length) then
    throw (.surplusRow record.key rows.count)
  if !rows.fields.accepts line.fields.length then
    throw (.rowWidth record.key rows.fields.bounds line.fields.length)
  rows.fields.convert scope line.fields

/-- Reads one body line. -/
def step (schema : Schema) (scope : Scope) (progress : Progress) (line : Line) :
    Except LineIssue Progress :=
  match schema.recognise? line with
  | some found => do
    progress.checkLast
    (checkSlot schema progress.filled found).mapError (⟨line.number, ·⟩)
    let record ← (Record.ofLine found.kind scope line).mapError (⟨line.number, ·⟩)
    return ⟨⟨record, found.kind.rows⟩ :: progress.owners, found.index :: progress.filled⟩
  | none =>
    match progress.owners with
    | ⟨record, some rows⟩ :: earlier => do
      let row ← (readRow scope record rows line).mapError (⟨line.number, ·⟩)
      return ⟨⟨record.addRow row, some rows⟩ :: earlier, progress.filled⟩
    | _ => .error ⟨line.number, .unknownLine line.joined schema.expectedKeys⟩

/-- Every slot was filled as often as it must be. -/
def checkSlots (schema : Schema) (filled : List Nat) : Except Issue Unit :=
  match schema.slots.zipIdx.find? fun (slot, index) => !slot.occurs.allows (filled.count index) with
  | some (slot, _) => .error (.missingLine (slot.kinds.map LineKind.name))
  | none => .ok ()

/-- The records of a block whose body its schema admits. -/
def read (schema : Schema) (scope : Scope) (block : Block) : Except LineIssue (List Record) := do
  let progress ← block.body.foldlM (step schema scope) (start schema block.number)
  progress.checkLast
  (checkSlots schema progress.filled).mapError (⟨block.number, ·⟩)
  return (progress.owners.map Owner.record).reverse

end Body

end CadTimeline
