import CadTimeline.Analysis
import CadTimeline.Decimal.Scientific
import CadTimeline.Report.Document

/-!
# Timelines as documents

The JSON form of a timeline that has been read.
-/

namespace CadTimeline

def Value.document : Value → Document
  | number x => .number (Number.reported x)
  | integer n => .number (toString n)
  | text s => .text s

def Tag.document : Tag → Document
  | coRail name => .record [("kind", .text "co_rail"), ("names", .text name)]
  | crossRails names => .record [("kind", .text "cross_rails"), ("names", .texts names)]

def Record.document (record : Record) : Document :=
  .record <|
    [("key", .texts record.key), ("values", .list (record.values.map Value.document))] ++
      Document.unlessEmpty "rows" record.rows (fun row => .list (row.map Value.document)) ++
      Document.unlessEmpty "annotations" record.tags Tag.document ++
      [("line", .ofNat record.line)]

def Destination.document (destination : Destination) : Document :=
  .record <|
    [("folder", .texts destination.folder), ("name", .text destination.name)] ++
      Document.unlessEmpty "component" destination.component .text

def Action.document (action : Action) : Document :=
  .record
    [("file_type", .text action.kind.word), ("location", action.destination.document),
      ("unit", .text action.unit.word), ("records", .list (action.records.map Record.document)),
      ("line", .ofNat action.line)]

def Parameter.document (parameter : Parameter) : Document :=
  .record
    [("name", .text parameter.name), ("value", .number (Number.reported parameter.value)),
      ("expression", .text parameter.expression), ("line", .ofNat parameter.line)]

def ParameterTable.document (table : ParameterTable) : Document :=
  .record (table.entries.map fun parameter => (parameter.name, parameter.document))

/-- The document of a timeline. Cross rails are not part of it. -/
def Analysis.document (analysis : Analysis) : Document :=
  .record
    [("file", .text analysis.file), ("parameters", analysis.parameters.document),
      ("actions", .list (analysis.actions.map Action.document)),
      ("echoes", .texts analysis.echoes)]

end CadTimeline
