import CadTimeline.Analysis
import CadTimeline.Proofs.Timeline.Renumbering

/-!
# Reading lines with other numbers

Nothing that is read of a block depends on the numbers of its lines. They are passed on to
records, actions, cross rails, parameters and complaints, and so these get the other numbers
and are the same in all else.
-/

namespace CadTimeline

variable (f : Nat → Nat)

/-! ## Parameters -/

def Parameter.renumber (parameter : Parameter) : Parameter :=
  { parameter with line := f parameter.line }

namespace ParameterTable

def renumber (table : ParameterTable) : ParameterTable :=
  ⟨table.entries.map (Parameter.renumber f)⟩

theorem find?_renumber (table : ParameterTable) (name : String) :
    (table.renumber f).find? name = (table.find? name).map (Parameter.renumber f) := by
  rw [find?, find?, renumber, List.find?_map]
  rfl

theorem scope_renumber (table : ParameterTable) (bareNames : BareNames) :
    (table.renumber f).scope bareNames = table.scope bareNames := by
  have hget : (table.renumber f).get? = table.get? := by
    funext name
    rw [get?, get?, find?_renumber, Option.map_map]
    rfl
  rw [scope, scope, hget]

theorem alike_define (table : ParameterTable) (name expression : String) (line : Nat) :
    Alike (Issue.Follows f) (fun next other => other = next.renumber f)
      (table.define name expression line)
      ((table.renumber f).define name expression (f line)) := by
  unfold define
  refine (Alike.refl .same (fun _ => rfl) (checkName name)).bind_eq fun _ => ?_
  rw [find?_renumber, scope_renumber]
  cases table.find? name with
  | some earlier => exact .error (.redefinition name earlier.line)
  | none =>
      refine (Alike.refl .same (fun _ => rfl) _).bind_eq fun value => .ok ?_
      simp [renumber, Parameter.renumber]

end ParameterTable

/-! ## Records -/

def Record.renumber (record : Record) : Record :=
  { record with line := f record.line }

theorem Record.alike_ofLine (kind : LineKind) (scope : Scope) (line : Line) :
    Alike Eq (fun record other => other = record.renumber f) (ofLine kind scope line)
      (ofLine kind scope (line.renumber f)) := by
  unfold ofLine
  refine (Alike.of_eq rfl).bind_eq fun tags => ?_
  refine Alike.ite (fun _ => .error rfl) fun _ => ?_
  exact (Alike.of_eq rfl).bind_eq fun values => .ok rfl

namespace Body

def Owner.renumber (owner : Owner) : Owner :=
  { owner with record := owner.record.renumber f }

def Progress.renumber (progress : Progress) : Progress :=
  { progress with owners := progress.owners.map (Owner.renumber f) }

theorem start_renumber (schema : Schema) (header : Nat) :
    start schema (f header) = (start schema header).renumber f := by
  unfold start
  cases schema.leadingRows <;> rfl

theorem Owner.alike_check (owner : Owner) :
    Alike (LineIssue.Follows f) Eq owner.check (owner.renumber f).check := by
  unfold check renumber
  cases owner.rows with
  | none => exact .ok rfl
  | some rows =>
      exact Alike.ite (fun _ => .ok rfl) fun _ => .error (LineIssue.follows f _ _)

theorem Progress.alike_checkLast (progress : Progress) :
    Alike (LineIssue.Follows f) Eq progress.checkLast (progress.renumber f).checkLast := by
  unfold checkLast renumber
  cases progress.owners with
  | nil => exact .ok rfl
  | cons owner owners => exact owner.alike_check f

variable {f} in
/-- What is wrong with a line is wrong with it under its other number. -/
theorem alike_at {α : Type} {R : α → α → Prop} {result other : Except Issue α}
    (h : Alike Eq R result other) (number : Nat) :
    Alike (LineIssue.Follows f) R (result.mapError (⟨number, ·⟩))
      (other.mapError (⟨f number, ·⟩)) :=
  h.mapError fun issue _ heq => heq ▸ LineIssue.follows f number issue

theorem alike_step (schema : Schema) (scope : Scope) (progress : Progress) (line : Line) :
    Alike (LineIssue.Follows f) (fun next other => other = next.renumber f)
      (step schema scope progress line)
      (step schema scope (progress.renumber f) (line.renumber f)) := by
  have hrecognise : schema.recognise? (line.renumber f) = schema.recognise? line := rfl
  unfold step
  rw [hrecognise]
  cases schema.recognise? line with
  | some found =>
      refine (progress.alike_checkLast f).bind_eq fun _ => ?_
      refine (alike_at (.of_eq rfl) line.number).bind_eq fun _ => ?_
      have hrecord := Record.alike_ofLine f found.kind scope line
      exact (alike_at hrecord line.number).bind_map fun record => .ok rfl
  | none =>
      obtain ⟨owners, filled⟩ := progress
      cases owners with
      | nil => exact .error (LineIssue.follows f _ _)
      | cons owner earlier =>
          obtain ⟨record, rows⟩ := owner
          cases rows with
          | none => exact .error (LineIssue.follows f _ _)
          | some rows =>
              exact (alike_at (.of_eq rfl) line.number).bind_eq fun row => .ok rfl

/-- The body of a block gives the same records. -/
theorem alike_read (schema : Schema) (scope : Scope) (block : Block) :
    Alike (LineIssue.Follows f) (fun records others => others = records.map (Record.renumber f))
      (read schema scope block) (read schema scope (block.renumber f)) := by
  have hstart : start schema (block.renumber f).number =
      (start schema block.number).renumber f := start_renumber f schema block.number
  unfold read
  rw [hstart]
  refine (Alike.foldlM_map (alike_step f schema scope) _).bind_map fun progress => ?_
  refine (progress.alike_checkLast f).bind_eq fun _ => ?_
  refine (alike_at (.of_eq rfl) block.number).bind_eq fun _ => .ok ?_
  simp [Progress.renumber, Owner.renumber]

end Body

/-! ## Blocks -/

def Action.renumber (action : Action) : Action :=
  { action with records := action.records.map (Record.renumber f), line := f action.line }

def CrossRails.renumber (rails : CrossRails) : CrossRails :=
  { rails with line := f rails.line }

theorem Action.alike_ofBlock (kind : ActionKind) (scope : Scope) (unit : LengthUnit)
    (block : Block) :
    Alike (LineIssue.Follows f) (fun action other => other = action.renumber f)
      (ofBlock kind scope unit block) (ofBlock kind scope unit (block.renumber f)) := by
  rw [ofBlock_eq, ofBlock_eq]
  refine (Body.alike_at (.of_eq rfl) block.number).bind_eq fun destination => ?_
  exact (Body.alike_read f kind.schema scope block).bind_map fun records => .ok rfl

namespace CrossRails

theorem valuesOf_renumber (records : List Record) (word : String) :
    valuesOf (records.map (Record.renumber f)) word = valuesOf records word := by
  unfold valuesOf
  rw [List.find?_map, Option.map_map]
  rfl

theorem alike_ofRecords (folder : List String) (namePrefix : Option String) (line : Nat)
    (records : List Record) :
    Alike Eq (fun rails other => other = rails.renumber f)
      (ofRecords folder namePrefix line records)
      (ofRecords folder namePrefix (f line) (records.map (Record.renumber f))) := by
  unfold ofRecords textOf textsOf
  simp only [valuesOf_renumber]
  refine Alike.ite (fun _ => .error rfl) fun _ => ?_
  split
  · exact .ok rfl
  · exact .ok rfl

theorem alike_ofBlock (scope : Scope) (block : Block) :
    Alike (LineIssue.Follows f) (fun rails other => other = rails.renumber f)
      (ofBlock scope block) (ofBlock scope (block.renumber f)) := by
  rw [ofBlock_eq, ofBlock_eq]
  refine (Body.alike_at (.of_eq rfl) block.number).bind_eq fun header => ?_
  refine (Body.alike_read f Schema.crossRails scope block).bind_map fun records => ?_
  exact Body.alike_at (alike_ofRecords f header.1 header.2 block.number records) block.number

end CrossRails

/-! ## Readings -/

namespace Reading

def renumber (reading : Reading) : Reading where
  parameters := reading.parameters.renumber f
  unit := reading.unit
  actions := reading.actions.map (Action.renumber f)
  crossRails := reading.crossRails.map fun (rails, unit) => (rails.renumber f, unit)
  echoes := reading.echoes

theorem alike_checkNoBody (block : Block) :
    Alike (LineIssue.Follows f) Eq (checkNoBody block) (checkNoBody (block.renumber f)) := by
  unfold checkNoBody Block.renumber
  cases block.body with
  | nil => exact .ok rfl
  | cons line body => exact .error (LineIssue.follows f _ _)

theorem alike_defineLine (table : ParameterTable) (line : Line) :
    Alike (LineIssue.Follows f) (fun next other => other = next.renumber f)
      (defineLine table line) (defineLine (table.renumber f) (line.renumber f)) := by
  have hfields : (line.renumber f).fields = line.fields := rfl
  unfold defineLine
  rw [hfields]
  split
  · exact (table.alike_define f _ _ line.number).mapError fun _ _ h => ⟨rfl, h⟩
  · exact .error (LineIssue.follows f _ _)

theorem alike_readParameters (table : ParameterTable) (block : Block) :
    Alike (LineIssue.Follows f) (fun next other => other = next.renumber f)
      (readParameters table block) (readParameters (table.renumber f) (block.renumber f)) := by
  refine Alike.ite (fun _ => ?_) fun _ => .error (LineIssue.follows f _ _)
  exact Alike.foldlM_map (alike_defineLine f) table

theorem alike_step (reading : Reading) (block : Block) :
    Alike (LineIssue.Follows f) (fun next other => other = next.renumber f)
      (reading.step block) ((reading.renumber f).step (block.renumber f)) := by
  have hscope : (reading.renumber f).scope = reading.scope :=
    reading.parameters.scope_renumber f .constantsOnly
  have hkeyword : (block.renumber f).keyword = block.keyword := rfl
  unfold step
  rw [hkeyword]
  cases block.keyword with
  | parameters =>
      exact (alike_readParameters f reading.parameters block).bind_map fun table => .ok rfl
  | units =>
      dsimp only
      rw [hscope]
      refine (alike_checkNoBody f block).bind_eq fun _ => ?_
      exact (Body.alike_at (.of_eq rfl) block.number).bind_eq fun unit => .ok rfl
  | echo =>
      dsimp only
      rw [hscope]
      refine (alike_checkNoBody f block).bind_eq fun _ => ?_
      exact (Body.alike_at (.of_eq rfl) block.number).bind_eq fun message => .ok rfl
  | crossRails =>
      dsimp only
      rw [hscope]
      refine (CrossRails.alike_ofBlock f _ block).bind_map fun rails => .ok ?_
      simp [renumber]
  | action kind =>
      dsimp only
      rw [hscope]
      refine (Action.alike_ofBlock f kind _ _ block).bind_map fun action => .ok ?_
      simp [renumber]

end Reading

/-- The same complaint, at the line with the new number. -/
structure Complaint.Follows (complaint other : Complaint) : Prop where
  location : other.location = { complaint.location with line := f complaint.location.line }
  issue : complaint.issue.Follows f other.issue

namespace Analysis

def renumber (analysis : Analysis) : Analysis where
  file := analysis.file
  parameters := analysis.parameters.renumber f
  actions := analysis.actions.map (Action.renumber f)
  crossRails := analysis.crossRails.map fun (rails, unit) => (rails.renumber f, unit)
  echoes := analysis.echoes

theorem follows_inFile (file label : String) {found other : LineIssue}
    (h : LineIssue.Follows f found other) :
    Complaint.Follows f (found.inFile file label) (other.inFile file label) :=
  ⟨by rw [LineIssue.inFile, h.line]; rfl, h.issue⟩

theorem alike_readBlock (file : String) (reading : Reading) (block : Block) :
    Alike (Complaint.Follows f) (fun next other => other = next.renumber f)
      (readBlock file reading block) (readBlock file (reading.renumber f) (block.renumber f)) :=
  (reading.alike_step f block).mapError fun _ _ => follows_inFile f file block.label

theorem alike_ofBlocks (file : String) (unit : LengthUnit) (blocks : List Block) :
    Alike (Complaint.Follows f) (fun analysis other => other = analysis.renumber f)
      (ofBlocks file unit blocks) (ofBlocks file unit (blocks.map (Block.renumber f))) := by
  refine (Alike.foldlM_map (alike_readBlock f file) (Reading.start unit)).map ?_
  rintro reading _ rfl
  rfl

/-- Two sources whose lines differ in their numbers only have the same analysis, but for these
numbers, or the same complaint. -/
theorem alike_ofSource (file : String) {source other : String} (unit : LengthUnit)
    (h : Line.ofSource other.toList =
      (Line.ofSource source.toList).map (Block.Item.renumber f)) :
    Alike (Complaint.Follows f) (fun analysis other => other = analysis.renumber f)
      (ofSource file source unit) (ofSource file other unit) := by
  unfold ofSource
  refine ((Block.alike_ofSource f h).mapError fun _ _ => follows_inFile f file "").bind ?_
  rintro blocks _ rfl
  exact alike_ofBlocks f file unit blocks

end Analysis

end CadTimeline
