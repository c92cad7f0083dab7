import CadTimeline.Analysis
import CadTimeline.Proofs.Trace.Basic

/-!
# Traces of blocks

What reading the header and the body of a block evaluates and substitutes, in order and up to
the first failure. The readers are those of the library, on top of traced ones for fields.
-/

namespace CadTimeline

variable {hidden : String → Prop} {scope other : Scope} (h : scope.AgreeOff hidden other)

open Traced

/-! ## Fields -/

def FieldSpec.traceConvert (spec : FieldSpec) (scope : Scope) (field : Field) :
    Traced Issue Value :=
  match spec.kind with
  | .number => do
    return .number (← scope.traceEvaluate field.text)
  | .integer => do
    let value ← scope.traceEvaluate field.text
    if !Binary64.isWhole value then throw (.notWhole spec.name value)
    if !isInt64 (Binary64.toInt value) then throw (.integerRange spec.name field.text)
    return .integer (Binary64.toInt value)
  | .text => do
    return .text (← scope.traceSubstitute field.text)
  | .choice words => do
    let word ← scope.traceSubstitute field.text
    if words.contains word then return .text word
    else throw (.wordChoice spec.name word words)

namespace Fields

def traceConvertAt (fields : Fields) (scope : Scope) (field : Field) (index : Nat) :
    Traced Issue Value :=
  match fields.spec? index with
  | some spec => spec.traceConvert scope field
  | .none => throw (.surplusField (index + 1) field.text)

def traceConvert (fields : Fields) (scope : Scope) (line : List Field) :
    Traced Issue (List Value) :=
  line.zipIdx.mapM fun (field, index) => fields.traceConvertAt scope field index

end Fields

def Tag.traceRead (scope : Scope) (word : TagWord) (fields : List Field) : Traced Issue Tag := do
  let names ← fields.mapM fun field => scope.traceSubstitute field.text
  match word.tag? names with
  | some tag => return tag
  | none => throw (.tagNames word.word word.expected names.length)

namespace Scope.AgreeOff

include h

theorem convert (spec : FieldSpec) (field : Field) :
    Agrees hidden Eq (spec.traceConvert scope field) (spec.convert other field) := by
  unfold FieldSpec.traceConvert FieldSpec.convert
  cases spec.kind with
  | number => exact (h.evaluate field.text).bind fun _ _ hv => .pure (congrArg Value.number hv)
  | integer =>
      refine (h.evaluate field.text).bind_eq fun value => ?_
      refine .ite (fun _ => .throw _) fun _ => .ite (fun _ => .throw _) fun _ => .pure rfl
  | text => exact (h.substitute field.text).bind fun _ _ hv => .pure (congrArg Value.text hv)
  | choice words =>
      refine (h.substitute field.text).bind_eq fun word => ?_
      exact .ite (fun _ => .pure rfl) fun _ => .throw _

theorem convertAt (fields : Fields) (field : Field) (index : Nat) :
    Agrees hidden Eq (fields.traceConvertAt scope field index)
      (fields.convertAt other field index) := by
  unfold Fields.traceConvertAt Fields.convertAt
  cases fields.spec? index with
  | none => exact .throw _
  | some spec => exact h.convert spec field

theorem convertAll (fields : Fields) (line : List Field) :
    Agrees hidden Eq (fields.traceConvert scope line) (fields.convert other line) :=
  .mapM fun entry _ => h.convertAt fields entry.1 entry.2

theorem tag (word : TagWord) (fields : List Field) :
    Agrees hidden Eq (Tag.traceRead scope word fields) (Tag.read other word fields) := by
  unfold Tag.traceRead Tag.read
  refine (Agrees.mapM fun field _ => h.substitute field.text).bind_eq fun names => ?_
  cases word.tag? names with
  | some tag => exact .pure rfl
  | none => exact .throw _

end Scope.AgreeOff

/-! ## Bodies -/

def Record.traceOfLine (kind : LineKind) (scope : Scope) (line : Line) : Traced Issue Record := do
  let fields := line.fields.drop kind.key.length
  let (own, tagged) := if kind.railTags then Tag.groups fields else (fields, [])
  let tags ← tagged.mapM fun (word, names) => Tag.traceRead scope word names
  if !kind.fields.accepts own.length then
    throw (.lineWidth kind.name kind.fields.bounds own.length)
  let values ← kind.fields.traceConvert scope own
  return ⟨kind.key, values, [], tags, kind.keyShown, line.number⟩

namespace Body

def traceRow (scope : Scope) (record : Record) (rows : Rows) (line : Line) :
    Traced Issue (List Value) := do
  if rows.count.most.any fun most => decide (most ≤ record.rows.length) then
    throw (.surplusRow record.key rows.count)
  if !rows.fields.accepts line.fields.length then
    throw (.rowWidth record.key rows.fields.bounds line.fields.length)
  rows.fields.traceConvert scope line.fields

def traceStep (schema : Schema) (scope : Scope) (progress : Progress) (line : Line) :
    Traced LineIssue Progress :=
  match schema.recognise? line with
  | some found => do
    lift progress.checkLast
    lift ((checkSlot schema progress.filled found).mapError (⟨line.number, ·⟩))
    let record ← (Record.traceOfLine found.kind scope line).mapError (⟨line.number, ·⟩)
    return ⟨⟨record, found.kind.rows⟩ :: progress.owners, found.index :: progress.filled⟩
  | none =>
    match progress.owners with
    | ⟨record, some rows⟩ :: earlier => do
      let row ← (traceRow scope record rows line).mapError (⟨line.number, ·⟩)
      return ⟨⟨record.addRow row, some rows⟩ :: earlier, progress.filled⟩
    | _ => throw ⟨line.number, .unknownLine line.joined schema.expectedKeys⟩

def traceRead (schema : Schema) (scope : Scope) (block : Block) :
    Traced LineIssue (List Record) := do
  let progress ← block.body.foldlM (traceStep schema scope) (start schema block.number)
  lift progress.checkLast
  lift ((checkSlots schema progress.filled).mapError (⟨block.number, ·⟩))
  return (progress.owners.map Owner.record).reverse

end Body

namespace Scope.AgreeOff

include h

theorem record (kind : LineKind) (line : Line) :
    Agrees hidden Eq (Record.traceOfLine kind scope line) (Record.ofLine kind other line) := by
  unfold Record.traceOfLine Record.ofLine
  refine (Agrees.mapM fun entry _ => h.tag entry.1 entry.2).bind_eq fun tags => ?_
  refine .ite (fun _ => .throw _) fun _ => ?_
  exact (h.convertAll _ _).bind_eq fun values => .pure rfl

theorem row (record : Record) (rows : Rows) (line : Line) :
    Agrees hidden Eq (Body.traceRow scope record rows line)
      (Body.readRow other record rows line) :=
  .ite (fun _ => .throw _) fun _ => .ite (fun _ => .throw _) fun _ => h.convertAll _ _

theorem bodyStep (schema : Schema) (progress : Body.Progress) (line : Line) :
    Agrees hidden Eq (Body.traceStep schema scope progress line)
      (Body.step schema other progress line) := by
  unfold Body.traceStep Body.step
  cases schema.recognise? line with
  | some found =>
      refine Agrees.lift_bind fun _ => ?_
      refine Agrees.lift_bind fun _ => ?_
      exact (h.record found.kind line).mapError.bind_eq fun record => .pure rfl
  | none =>
      obtain ⟨owners, filled⟩ := progress
      cases owners with
      | nil => exact .throw _
      | cons owner earlier =>
          obtain ⟨record, rows⟩ := owner
          cases rows with
          | none => exact .throw _
          | some rows =>
              exact (h.row record rows line).mapError.bind_eq fun row => .pure rfl

theorem body (schema : Schema) (block : Block) :
    Agrees hidden Eq (Body.traceRead schema scope block) (Body.read schema other block) := by
  unfold Body.traceRead Body.read
  refine (Agrees.foldlM (fun progress _ line hp => hp ▸ h.bodyStep schema progress line)
    rfl).bind_eq fun progress => ?_
  refine Agrees.lift_bind fun _ => ?_
  exact Agrees.lift_bind fun _ => .pure rfl

end Scope.AgreeOff

/-! ## Headers -/

namespace Destination

def traceComponent (scope : Scope) (text : String) : Traced Issue (List String) := do
  let segments ← lift (Segments.split "component path" (← scope.traceSubstitute text))
  if segments.isEmpty then throw .emptyComponent else return segments

def traceHeader (scope : Scope) (header : Line) : Traced Issue Destination := do
  match header.fields with
  | _ :: folder :: name :: rest =>
    if rest.length > 1 then throw (.actionHeader header.firstWord header.fields.length)
    let folder ← lift (Segments.split "folder" (← scope.traceSubstitute folder.text))
    let name ← scope.traceSubstitute name.text
    if !isStem name then throw (.fileStem name)
    match rest.head? with
    | some component => return ⟨folder, name, ← traceComponent scope component.text⟩
    | none => return ⟨folder, name, []⟩
  | fields => throw (.actionHeader header.firstWord fields.length)

end Destination

namespace CrossRails

def traceHeader (scope : Scope) (header : Line) :
    Traced Issue (List String × Option String) := do
  match header.fields with
  | _ :: folder :: rest =>
    if rest.length > 1 then throw (.crossRailsHeader header.fields.length)
    let folder ← lift (Segments.split "folder" (← scope.traceSubstitute folder.text))
    match rest.head? with
    | some field => return (folder, some (← scope.traceSubstitute field.text))
    | none => return (folder, none)
  | fields => throw (.crossRailsHeader fields.length)

end CrossRails

namespace Reading

def traceUnit (scope : Scope) (header : Line) : Traced Issue LengthUnit := do
  match header.fields with
  | [_, field] =>
    let word ← scope.traceSubstitute field.text
    match LengthUnit.ofWord? word with
    | some unit => return unit
    | none => throw (.unknownUnit word)
  | _ => throw .unitsHeader

def traceEcho (scope : Scope) (header : Line) : Traced Issue String := do
  let parts ← (header.fields.drop 1).mapM fun field => scope.traceSubstitute field.text
  return String.intercalate ", " parts

end Reading

namespace Scope.AgreeOff

include h

theorem component (text : String) :
    Agrees hidden Eq (Destination.traceComponent scope text)
      (Destination.readComponent other text) := by
  refine (h.substitute text).bind_eq fun path => ?_
  refine Agrees.lift_bind fun segments => ?_
  exact .ite (fun _ => .throw _) fun _ => .pure rfl

theorem header (line : Line) :
    Agrees hidden Eq (Destination.traceHeader scope line) (Destination.ofHeader other line) := by
  unfold Destination.traceHeader Destination.ofHeader
  generalize line.fields = fields
  match fields with
  | [] | [_] | [_, _] => exact .throw _
  | _ :: folder :: name :: rest =>
      refine .ite (fun _ => .throw _) fun _ => ?_
      refine (h.substitute folder.text).bind_eq fun path => ?_
      refine Agrees.lift_bind fun folder => ?_
      refine (h.substitute name.text).bind_eq fun name => ?_
      refine .ite (fun _ => .throw _) fun _ => ?_
      cases rest.head? with
      | none => exact .pure rfl
      | some field =>
          exact (h.component field.text).bind_eq fun component => .pure rfl

theorem railsHeader (line : Line) :
    Agrees hidden Eq (CrossRails.traceHeader scope line) (CrossRails.readHeader other line) := by
  unfold CrossRails.traceHeader CrossRails.readHeader
  generalize line.fields = fields
  match fields with
  | [] | [_] => exact .throw _
  | _ :: folder :: rest =>
      refine .ite (fun _ => .throw _) fun _ => ?_
      refine (h.substitute folder.text).bind_eq fun path => ?_
      refine Agrees.lift_bind fun folder => ?_
      cases rest.head? with
      | none => exact .pure rfl
      | some field =>
          exact (h.substitute field.text).bind_eq fun text => .pure rfl

theorem unit (line : Line) :
    Agrees hidden Eq (Reading.traceUnit scope line) (Reading.readUnit other line) := by
  unfold Reading.traceUnit Reading.readUnit
  generalize line.fields = fields
  match fields with
  | [] | [_] | _ :: _ :: _ :: _ => exact .throw _
  | [_, field] =>
      refine (h.substitute field.text).bind_eq fun word => ?_
      cases LengthUnit.ofWord? word with
      | none => exact .throw _
      | some unit => exact .pure rfl

theorem echo (line : Line) :
    Agrees hidden Eq (Reading.traceEcho scope line) (Reading.readEcho other line) := by
  exact (Agrees.mapM fun field _ => h.substitute field.text).bind_eq fun parts => .pure rfl

end Scope.AgreeOff

/-! ## Blocks -/

def CrossRails.traceBlock (scope : Scope) (block : Block) : Traced LineIssue CrossRails := do
  let (folder, namePrefix) ← (traceHeader scope block.header).mapError (⟨block.number, ·⟩)
  let records ← Body.traceRead Schema.crossRails scope block
  lift ((ofRecords folder namePrefix block.number records).mapError (⟨block.number, ·⟩))

def Action.traceBlock (kind : ActionKind) (scope : Scope) (unit : LengthUnit) (block : Block) :
    Traced LineIssue Action := do
  let destination ← (Destination.traceHeader scope block.header).mapError (⟨block.number, ·⟩)
  let records ← Body.traceRead kind.schema scope block
  return ⟨kind, destination, unit, records, block.number⟩

namespace Scope.AgreeOff

include h

theorem crossRails (block : Block) :
    Agrees hidden Eq (CrossRails.traceBlock scope block) (CrossRails.ofBlock other block) := by
  rw [CrossRails.ofBlock_eq]
  refine (h.railsHeader block.header).mapError.bind_eq fun header => ?_
  exact (h.body Schema.crossRails block).bind_eq fun records => .lift (.of_eq rfl)

theorem action (kind : ActionKind) (unit : LengthUnit) (block : Block) :
    Agrees hidden Eq (Action.traceBlock kind scope unit block)
      (Action.ofBlock kind other unit block) := by
  rw [Action.ofBlock_eq]
  refine (h.header block.header).mapError.bind_eq fun destination => ?_
  exact (h.body kind.schema block).bind_eq fun records => .pure rfl

end Scope.AgreeOff

end CadTimeline
