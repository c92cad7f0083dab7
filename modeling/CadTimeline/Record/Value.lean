import CadTimeline.Issue
import CadTimeline.Parameter.Substitution
import CadTimeline.Text.Quoted

/-!
# Values of fields

What a field of a block holds once its expression is evaluated or its
references are replaced.
-/

namespace CadTimeline

inductive Value where
  | number (value : Float)
  | integer (value : Int)
  | text (value : String)
deriving Repr

namespace Value

def toFloat? : Value → Option Float
  | number x => some x
  | integer n => some (Binary64.ofRank (decide (n < 0)) (Binary64.nearest n.natAbs 1))
  | text _ => none

def toText? : Value → Option String
  | text s => some s
  | _ => none

/-- The value as a person reads it. -/
def display : Value → String
  | number x => Number.plain x
  | integer n => toString n
  | text s => s

/-- The value as an action file holds it: text is quoted where it has to be. -/
def written : Value → String
  | text s => Text.quoted s
  | value => value.display

end Value

/-- Replaces the references in a field. -/
def Scope.substitute (scope : Scope) (text : String) : Except Issue String :=
  (Substitution.substitute scope.value? text).mapError (Issue.evaluation text)

/-- Evaluates a field. -/
def Scope.evaluate (scope : Scope) (text : String) : Except Issue Float :=
  (Expr.evalText scope text).mapError (Issue.evaluation text)

/-- Whether an integer fits in 64 bits. -/
def isInt64 (n : Int) : Bool :=
  decide (-Int.pow 2 63 ≤ n) && decide (n < Int.pow 2 63)

namespace FieldSpec

/-- The value of a field of this kind. -/
def convert (spec : FieldSpec) (scope : Scope) (field : Field) : Except Issue Value :=
  match spec.kind with
  | .number => do
    return .number (← scope.evaluate field.text)
  | .integer => do
    let value ← scope.evaluate field.text
    if !Binary64.isWhole value then throw (.notWhole spec.name value)
    if !isInt64 (Binary64.toInt value) then throw (.integerRange spec.name field.text)
    return .integer (Binary64.toInt value)
  | .text => do
    return .text (← scope.substitute field.text)
  | .choice words => do
    let word ← scope.substitute field.text
    if words.contains word then return .text word
    else throw (.wordChoice spec.name word words)

end FieldSpec

namespace Fields

/-- The value of the field at an index. -/
def convertAt (fields : Fields) (scope : Scope) (field : Field) (index : Nat) :
    Except Issue Value :=
  match fields.spec? index with
  | some spec => spec.convert scope field
  | none => .error (.surplusField (index + 1) field.text)

/-- The values of the fields of a line. -/
def convert (fields : Fields) (scope : Scope) (line : List Field) : Except Issue (List Value) :=
  line.zipIdx.mapM fun (field, index) => fields.convertAt scope field index

end Fields

end CadTimeline
