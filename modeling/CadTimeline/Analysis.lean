import CadTimeline.Parameter.Table
import CadTimeline.Rails.Cross
import CadTimeline.Timeline.Source

/-!
# Analysis of a timeline

Reading a whole timeline block by block. A block sees the parameters defined and
the unit chosen before it.
-/

namespace CadTimeline

/-- What a timeline file says; nothing is written yet. -/
structure Analysis where
  file : String
  parameters : ParameterTable
  actions : List Action
  /-- The cross rails with the unit that held at their block. -/
  crossRails : List (CrossRails × LengthUnit)
  echoes : List String
deriving Repr

/-- What has been read of a timeline. -/
structure Reading where
  parameters : ParameterTable
  unit : LengthUnit
  actions : List Action
  crossRails : List (CrossRails × LengthUnit)
  echoes : List String
deriving Repr

namespace Reading

def start (unit : LengthUnit) : Reading :=
  ⟨.empty, unit, [], [], []⟩

/-- What the fields of action blocks can use. -/
def scope (reading : Reading) : Scope :=
  reading.parameters.scope .constantsOnly

/-- The block must not have a body. -/
def checkNoBody (block : Block) : Except LineIssue Unit :=
  match block.body with
  | [] => .ok ()
  | line :: _ => .error ⟨line.number, .unexpectedLine line.joined block.keyword⟩

/-- Adds the parameter that a line defines. -/
def defineLine (table : ParameterTable) (line : Line) : Except LineIssue ParameterTable :=
  match line.fields with
  | [name, expression] =>
    (table.define name.text expression.text line.number).mapError (⟨line.number, ·⟩)
  | fields => .error ⟨line.number, .definitionWidth fields.length⟩

def readParameters (table : ParameterTable) (block : Block) : Except LineIssue ParameterTable :=
  if block.header.fields.length = 1 then block.body.foldlM defineLine table
  else .error ⟨block.number, .parametersHeader⟩

/-- The unit that a header names. -/
def readUnit (scope : Scope) (header : Line) : Except Issue LengthUnit := do
  match header.fields with
  | [_, field] =>
    let word ← scope.substitute field.text
    match LengthUnit.ofWord? word with
    | some unit => return unit
    | none => throw (.unknownUnit word)
  | _ => throw .unitsHeader

def readEcho (scope : Scope) (header : Line) : Except Issue String := do
  let parts ← (header.fields.drop 1).mapM fun field => scope.substitute field.text
  return String.intercalate ", " parts

/-- Reads one more block. -/
def step (reading : Reading) (block : Block) : Except LineIssue Reading := do
  let here {α : Type} (result : Except Issue α) := result.mapError (LineIssue.mk block.number)
  match block.keyword with
  | .parameters =>
    return { reading with parameters := ← readParameters reading.parameters block }
  | .units =>
    checkNoBody block
    return { reading with unit := ← here (readUnit reading.scope block.header) }
  | .echo =>
    checkNoBody block
    let message ← here (readEcho reading.scope block.header)
    return { reading with echoes := reading.echoes ++ [message] }
  | .crossRails =>
    let rails ← CrossRails.ofBlock reading.scope block
    return { reading with crossRails := reading.crossRails ++ [(rails, reading.unit)] }
  | .action kind =>
    let action ← Action.ofBlock kind reading.scope reading.unit block
    return { reading with actions := reading.actions ++ [action] }

def finish (file : String) (reading : Reading) : Analysis :=
  ⟨file, reading.parameters, reading.actions, reading.crossRails, reading.echoes⟩

end Reading

/-- What is wrong with a line of a file, in a block of this label. -/
def LineIssue.inFile (file block : String) (found : LineIssue) : Complaint :=
  ⟨⟨file, found.line, block⟩, found.issue⟩

namespace Analysis

def readBlock (file : String) (reading : Reading) (block : Block) : Except Complaint Reading :=
  (reading.step block).mapError (LineIssue.inFile file block.label)

def ofBlocks (file : String) (unit : LengthUnit) (blocks : List Block) :
    Except Complaint Analysis :=
  (blocks.foldlM (readBlock file) (Reading.start unit)).map (Reading.finish file)

/-- Reads a timeline; `unit` holds until a `units` block changes it. -/
def ofSource (file source : String) (unit : LengthUnit) : Except Complaint Analysis := do
  let blocks ← (Block.ofSource source).mapError (LineIssue.inFile file "")
  ofBlocks file unit blocks

/-- The sketches of the timeline. -/
def sketches (analysis : Analysis) : List Action :=
  analysis.actions.filter fun action => action.kind = .sketch

end Analysis

end CadTimeline
