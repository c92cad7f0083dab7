import CadTimeline.Record.Value

/-!
# Records

A line of a block after conversion, with the data rows that it owns and the rail
tags that it carries.
-/

namespace CadTimeline

/-- The rails that a segment of a sketch belongs to. -/
inductive Tag where
  /-- The segment is itself a rail of this name. -/
  | coRail (name : String)
  /-- The segment has points on rails of these names across a family of sketches. -/
  | crossRails (names : List String)
deriving DecidableEq, Repr

structure Record where
  key : List String
  values : List Value
  rows : List (List Value)
  tags : List Tag
  /-- The key is written to the action file. -/
  keyShown : Bool
  line : Nat
deriving Repr

namespace Record

/-- The first word of the key. -/
def word (record : Record) : String :=
  record.key.headD ""

/-- The name in the first co rail tag. -/
def coRail? (record : Record) : Option String :=
  record.tags.findSome? fun
    | .coRail name => some name
    | .crossRails _ => none

def isOnCrossRail (record : Record) (rail : String) : Bool :=
  record.tags.any fun
    | .coRail _ => false
    | .crossRails names => names.contains rail

/-- The record with one more row. -/
def addRow (record : Record) (row : List Value) : Record :=
  { record with rows := record.rows ++ [row] }

end Record

end CadTimeline
