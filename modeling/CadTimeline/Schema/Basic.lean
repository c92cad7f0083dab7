import CadTimeline.Schema.Fields
import CadTimeline.Timeline.Line

/-!
# Block schemas

The lines that a kind of block may hold. A schema is a list of slots; a slot
holds alternative kinds of line and says how often they may occur. A line is
recognised by its leading key words and may own the data rows after it.
-/

namespace CadTimeline

/-- The data rows that a line owns. -/
structure Rows where
  fields : Fields
  count : Bounds
deriving DecidableEq, Repr

/-- One kind of line within a block. -/
structure LineKind where
  /-- The words that the line starts with. -/
  key : List String
  /-- The fields after the key. -/
  fields : Fields
  rows : Option Rows := none
  /-- The key is written to the action file. -/
  keyShown : Bool := true
  /-- The line may end in rail tags. -/
  railTags : Bool := false
deriving DecidableEq, Repr

namespace LineKind

/-- Whether the line starts with the key words, unquoted. -/
def accepts (kind : LineKind) (line : Line) : Bool :=
  (kind.key.map fun word => Field.mk word false).isPrefixOf line.fields

def name (kind : LineKind) : String :=
  String.intercalate ", " kind.key

end LineKind

/-- How often the lines of a slot may occur in a block. -/
inductive Occurs where
  | once
  | optional
  | atLeastOnce
  | any
deriving DecidableEq, Repr

namespace Occurs

def allows : Occurs → Nat → Bool
  | once, count => count == 1
  | optional, count => decide (count ≤ 1)
  | atLeastOnce, count => decide (1 ≤ count)
  | any, _ => true

def repeatable : Occurs → Bool
  | once => false
  | optional => false
  | atLeastOnce => true
  | any => true

end Occurs

/-- Kinds of line that share one place in a block. -/
structure Slot where
  name : String
  occurs : Occurs
  kinds : List LineKind
deriving DecidableEq, Repr

/-- The first lines of an action file. The group is the last segment of the
component path. -/
inductive Preamble where
  /-- The keyword alone. -/
  | keyword
  /-- Keyword and name on one line. -/
  | keywordName
  /-- Keyword, name and, if there is one, the group on one line. -/
  | keywordNameGroup
  /-- The keyword, then a line with the name. -/
  | keywordThenName
  /-- The keyword, then a line with the group, or the name if there is none. -/
  | keywordThenGroup
deriving DecidableEq, Repr

structure Schema where
  preamble : Preamble
  /-- A line with the unit follows the preamble. -/
  unitLine : Bool
  /-- Rows directly after the header, owned by no line. -/
  leadingRows : Option Rows := none
  slots : List Slot
  /-- The slots must appear in the order in which they are listed. -/
  ordered : Bool
deriving DecidableEq, Repr

namespace Schema

/-- A line recognised by a schema. -/
structure Recognised where
  index : Nat
  slot : Slot
  kind : LineKind

/-- The first slot with a kind that accepts the line. -/
def recognise? (schema : Schema) (line : Line) : Option Recognised :=
  schema.slots.zipIdx.findSome? fun (slot, index) =>
    (slot.kinds.find? (·.accepts line)).map fun kind => ⟨index, slot, kind⟩

/-- The keys of all kinds of line, for messages. -/
def expectedKeys (schema : Schema) : String :=
  String.intercalate " | " (schema.slots.flatMap fun slot => slot.kinds.map LineKind.name)

end Schema

end CadTimeline
