import CadTimeline.Action.Basic

/-!
# Action files

The text of the file that an action becomes: the preamble and the unit that its
kind prescribes, then every record with its rows, one line each.
-/

namespace CadTimeline

namespace File

/-- One line of fields. -/
def row (fields : List String) : String :=
  String.intercalate ", " fields ++ "\n"

/-- The line of a record, if anything of it is shown, and those of its rows. -/
def record (r : Record) : String :=
  let key := if r.keyShown then r.key.map Text.quoted else []
  let fields := key ++ r.values.map Value.written
  let head := if fields.isEmpty then "" else row fields
  head ++ String.join (r.rows.map fun values => row (values.map Value.written))

def records (rs : List Record) : String :=
  String.join (rs.map record)

/-- The lines before the unit. -/
def preamble (shape : Preamble) (keyword name : String) (group : Option String) :
    List (List String) :=
  match shape with
  | .keyword => [[keyword]]
  | .keywordName => [[keyword, name]]
  | .keywordNameGroup => [keyword :: name :: group.toList]
  | .keywordThenName => [[keyword], [name]]
  | .keywordThenGroup => [[keyword], [group.getD name]]

end File

namespace Action

/-- The text of the file of an action as a schema prescribes it. -/
def fileBy (action : Action) (schema : Schema) : String :=
  let name := Text.quoted action.destination.name
  let group := action.destination.group?.map Text.quoted
  let front := File.preamble schema.preamble action.kind.word name group
  let unit := if schema.unitLine then [[action.unit.word]] else []
  String.join ((front ++ unit).map File.row) ++ File.records action.records

def file (action : Action) : String :=
  action.fileBy action.kind.schema

end Action

end CadTimeline
