import CadTimeline.Text.Lines
import CadTimeline.Timeline.Field

/-!
# Lines of a timeline

The lines of a source that have content, each with its number.
-/

namespace CadTimeline

/-- A line with content. -/
structure Line where
  /-- The position of the line in its source, from one. -/
  number : Nat
  fields : List Field
deriving DecidableEq, Repr

namespace Line

/-- A line that cannot be split into fields. -/
structure Fault where
  number : Nat
  cause : Field.Fault
deriving DecidableEq, Repr

def text? (line : Line) (index : Nat) : Option String :=
  line.fields[index]?.map Field.text

/-- The text of the first field. -/
def firstWord (line : Line) : String :=
  (line.text? 0).getD ""

/-- The texts of the fields in one, for messages. -/
def joined (line : Line) : String :=
  String.intercalate ", " (line.fields.map Field.text)

/-- The line read from a raw one, if that has content. -/
def read (number : Nat) (raw : List Char) : Option (Except Fault Line) :=
  match Field.splitLine raw with
  | .error cause => some (.error ⟨number, cause⟩)
  | .ok [] => none
  | .ok fields => some (.ok ⟨number, fields⟩)

/-- The lines of a source that have content, and in their places those that
cannot be split. -/
def ofSource (source : List Char) : List (Except Fault Line) :=
  ((Text.lines source).zipIdx 1).filterMap fun (raw, number) => read number raw

end Line

end CadTimeline
