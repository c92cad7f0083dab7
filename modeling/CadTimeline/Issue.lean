import CadTimeline.Expr.Eval
import CadTimeline.Schema.Fields
import CadTimeline.Timeline.Keyword
import CadTimeline.Timeline.Field

/-!
# What can be wrong with a timeline

The causes of failure while a timeline is read, and how each is worded. A cause
becomes a complaint once file, line and block are known.
-/

namespace CadTimeline

/-- A cause of failure. -/
inductive Issue where
  | malformed (fault : Field.Fault)
  /-- The expression, or the text with references, has no value. -/
  | evaluation (text : String) (fault : Expr.Fault)
  | strayLine (word : String)
  | unexpectedLine (line : String) (block : Keyword)
  | parametersHeader
  | definitionWidth (count : Nat)
  | nameSpelling (name : String)
  | nameDoubleUnderscore (name : String)
  | nameReserved (name : String)
  | redefinition (name : String) (line : Nat)
  | unitsHeader
  | unknownUnit (text : String)
  | actionHeader (word : String) (count : Nat)
  | crossRailsHeader (count : Nat)
  | noSchema (block : Keyword)
  | absolutePath (what path : String)
  | pathSegment (segment what path : String)
  | backslash (what path : String)
  | emptyComponent
  | fileStem (name : String)
  | equalNormals (axis : String)
  | surplusField (position : Nat) (text : String)
  | notWhole (field : String) (value : Float)
  | integerRange (field text : String)
  | wordChoice (field word : String) (words : List String)
  | duplicateLine (slot : String)
  | misplacedLine (slot previous : String)
  | unknownLine (line expected : String)
  | missingLine (kinds : List String)
  | lineWidth (kind : String) (bounds : Bounds) (count : Nat)
  | rowWidth (owner : List String) (bounds : Bounds) (count : Nat)
  | surplusRow (owner : List String) (bounds : Bounds)
  | rowCount (owner : List String) (bounds : Bounds) (count : Nat)
  | tagNames (tag expected : String) (count : Nat)
deriving Repr

namespace Issue

/-- The category under which reports name a failure. -/
def kind : Issue → String
  | malformed _ => "MalformedLineError"
  | evaluation _ (.undefined _) => "UndefinedParameterError"
  | evaluation _ (.disallowed _) => "DisallowedFunctionError"
  | evaluation _ _ => "ExpressionSyntaxError"
  | _ => "SchemaValidationError"

/-- How messages name the owner of data rows, by its key. -/
def describeOwner (owner : List String) : String :=
  if owner.isEmpty then "the block" else "`" ++ String.intercalate ", " owner ++ "`"

def message : Issue → String
  | malformed fault => s!"malformed line: {fault.message}"
  | evaluation text (.disallowed function) => s!"function `{function}` is not allowed in `{text}`"
  | evaluation _ (.undefined name) => s!"undefined parameter `{name}`"
  | evaluation text fault => s!"invalid expression `{text}`: {fault.message}"
  | strayLine word => s!"unknown file type `{word}`, expected a block keyword"
  | unexpectedLine line block => s!"unexpected line `{line}` in `{block.word}` block"
  | parametersHeader => "`parameters` takes no fields, definitions follow on the next lines"
  | definitionWidth count =>
    s!"parameter line expects `name, expression`, found {count} fields " ++
      "(quote expressions that contain commas)"
  | nameSpelling name => s!"invalid parameter name `{name}`, use letters, digits and `_`"
  | nameDoubleUnderscore name => s!"parameter name `{name}` must not contain `__`"
  | nameReserved name => s!"parameter name `{name}` is reserved for a math function or constant"
  | redefinition name line => s!"parameter `{name}` is already defined on line {line}"
  | unitsHeader => "`units` expects `units, <mm|cm|m>`"
  | unknownUnit text => s!"unknown unit `{text}`, expected mm, cm or m"
  | actionHeader word count =>
    s!"`{word}` header expects `{word}, <folder>, <name>[, <component path>]`, found {count} fields"
  | crossRailsHeader count =>
    s!"`cross_rails` header expects `cross_rails, <folder>[, <prefix>]`, found {count} fields"
  | noSchema .crossRails => "no schema for cross_rails"
  | noSchema block => s!"no schema for `{block.word}`"
  | absolutePath what path => s!"{what} `{path}` must be a relative path"
  | pathSegment segment what path => s!"invalid segment `{segment}` in {what} `{path}`"
  | backslash what path => s!"use `/` to separate {what} `{path}`"
  | emptyComponent => "empty component path"
  | fileStem name => s!"invalid name `{name}`"
  | equalNormals axis => s!"rail_plane_normal must differ from profile_plane_normal `{axis}`"
  | surplusField position text => s!"unexpected field {position} `{text}`"
  | notWhole field value => s!"`{field}` must be a whole number, got {Number.display value}"
  | integerRange field text => s!"`{field}` is out of integer range, got {text}"
  | wordChoice field word words =>
    s!"invalid {field} `{word}`, expected one of: " ++ String.intercalate ", " words
  | duplicateLine slot => s!"duplicate `{slot}` line"
  | misplacedLine slot previous => s!"`{slot}` line must come before `{previous}`"
  | unknownLine line expected => s!"unexpected line `{line}`, expected one of: {expected}"
  | missingLine kinds => "missing `" ++ String.intercalate "` or `" kinds ++ "` line"
  | lineWidth kind bounds count =>
    s!"`{kind}` expects {bounds.fields} after the key, found {count}"
  | rowWidth owner bounds count =>
    s!"row of {describeOwner owner} expects {bounds.fields}, found {count}"
  | surplusRow owner bounds =>
    s!"too many rows for {describeOwner owner}, expected {bounds.rows}"
  | rowCount owner bounds count =>
    s!"{describeOwner owner} expects {bounds.rows}, found {count}"
  | tagNames tag expected count => s!"`{tag}` expects {expected}, found " ++ counted count "name"

end Issue

/-- A cause of failure at a line of the source. -/
structure LineIssue where
  line : Nat
  issue : Issue
deriving Repr

/-- A place in a timeline file. The block is the label of the block that the line
belongs to, and empty where that is not known. -/
structure Location where
  file : String
  line : Nat
  block : String
deriving DecidableEq, Repr

/-- How messages name the place. A source that came from no file is an input. -/
def Location.describe (location : Location) : String :=
  let file := if location.file.isEmpty then "<input>" else location.file
  let place := s!"{file}:{location.line}"
  if location.block.isEmpty then place else s!"{place} in block `{location.block}`"

/-- What is wrong, and where. -/
structure Complaint where
  location : Location
  issue : Issue
deriving Repr

namespace Complaint

def kind (complaint : Complaint) : String :=
  complaint.issue.kind

def message (complaint : Complaint) : String :=
  s!"{complaint.location.describe}: {complaint.issue.message}"

end Complaint

end CadTimeline
