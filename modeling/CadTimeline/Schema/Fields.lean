/-!
# Field layouts

What a line of a block consists of: the kinds of its fields and how many there
may be.
-/

namespace CadTimeline

/-- The least and the greatest number of things allowed. -/
structure Bounds where
  least : Nat
  most : Option Nat
deriving DecidableEq, Repr

namespace Bounds

def accepts (bounds : Bounds) (count : Nat) : Bool :=
  decide (bounds.least ≤ count) && bounds.most.all fun most => decide (count ≤ most)

end Bounds

/-- A count with its noun. -/
def counted (count : Nat) (noun : String) : String :=
  if count = 1 then s!"1 {noun}" else s!"{count} {noun}s"

namespace Bounds

/-- The bounds in words. -/
def describe (bounds : Bounds) (noun : String) : String :=
  match bounds.most with
  | none => "at least " ++ counted bounds.least noun
  | some most =>
    if most = bounds.least then counted most noun else s!"{bounds.least} to {most} {noun}s"

/-- The bounds as a number of fields. -/
def fields (bounds : Bounds) : String :=
  bounds.describe "field"

/-- The bounds as a number of rows. -/
def rows (bounds : Bounds) : String :=
  bounds.describe "row"

end Bounds

/-- What a field may hold. -/
inductive FieldKind where
  /-- An expression. -/
  | number
  /-- An expression with a whole value. -/
  | integer
  /-- Text in which references are replaced. -/
  | text
  /-- One of these words, after references are replaced. -/
  | choice (words : List String)
deriving DecidableEq, Repr

structure FieldSpec where
  name : String
  kind : FieldKind
deriving DecidableEq, Repr

/-- The layout of a line: required fields, then optional ones, then a field that
may be repeated, with the least number of its repetitions. -/
structure Fields where
  required : List FieldSpec
  optional : List FieldSpec := []
  repeated : Option (FieldSpec × Nat) := none
deriving DecidableEq, Repr

namespace Fields

def bounds (fields : Fields) : Bounds where
  least := fields.required.length + (fields.repeated.map Prod.snd).getD 0
  most :=
    if fields.repeated.isSome then none
    else some (fields.required.length + fields.optional.length)

/-- The kind of the field at an index. -/
def spec? (fields : Fields) (index : Nat) : Option FieldSpec :=
  (fields.required ++ fields.optional)[index]?.or (fields.repeated.map Prod.fst)

def accepts (fields : Fields) (count : Nat) : Bool :=
  fields.bounds.accepts count

end Fields

end CadTimeline
