import CadTimeline.Decimal.Plain

/-!
# File names

How action files and rail sketches are named.
-/

namespace CadTimeline.FileName

/-- The text without `_0` at its end, unless that is all of it. -/
def dropZeroPlace (text : List Char) : List Char :=
  match text.reverse with
  | '0' :: '_' :: c :: rest => (c :: rest).reverse
  | _ => text

/-- A plane offset in a file name: without its sign, and with `_` for the point. -/
def offset (value : Float) : String :=
  let text := (Number.plain value.abs).toList.map fun c => if c = '.' then '_' else c
  String.ofList (dropZeroPlace text)

def action (name : String) : String :=
  s!"{name}.csv"

/-- The name of a sketch that belongs to a family of parallel ones. -/
def sketch (axis : String) (value : Float) (name : String) : String :=
  let place := offset value
  s!"{axis}_{place}_{name}.csv"

/-- The name of a rail sketch. -/
def rail (railPrefix : Option String) (axis : String) (value : Float) (name : String) : String :=
  match railPrefix with
  | some first => s!"{first}_" ++ sketch axis value name
  | none => sketch axis value name

end CadTimeline.FileName
