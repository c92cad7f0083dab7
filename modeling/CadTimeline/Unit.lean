/-!
# Length units

The units that the coordinates of an action file may be given in.
-/

namespace CadTimeline

inductive LengthUnit where
  | mm
  | cm
  | m
deriving DecidableEq, Repr

namespace LengthUnit

def word : LengthUnit → String
  | mm => "mm"
  | cm => "cm"
  | m => "m"

def ofWord? (word : String) : Option LengthUnit :=
  [mm, cm, m].find? (·.word == word)

theorem ofWord?_word (unit : LengthUnit) : ofWord? unit.word = some unit := by
  cases unit <;> decide

end LengthUnit

end CadTimeline
