import CadTimeline.Issue

/-!
# The parameter table

Named values in the order of their definitions. A name is bound once, to the
value that its expression has among the parameters defined before it.
-/

namespace CadTimeline

/-- A named value with the expression that defines it. -/
structure Parameter where
  name : String
  value : Float
  expression : String
  line : Nat
deriving Repr

structure ParameterTable where
  entries : List Parameter
deriving Repr

namespace ParameterTable

def empty : ParameterTable := ⟨[]⟩

def find? (table : ParameterTable) (name : String) : Option Parameter :=
  table.entries.find? (·.name == name)

def get? (table : ParameterTable) (name : String) : Option Float :=
  (table.find? name).map Parameter.value

/-- What an expression can use of the table. -/
def scope (table : ParameterTable) (bareNames : BareNames) : Scope :=
  ⟨table.get?, bareNames⟩

def hasDoubleUnderscore : List Char → Bool
  | '_' :: '_' :: _ => true
  | _ :: cs => hasDoubleUnderscore cs
  | [] => false

/-- Whether a parameter may bear the name. -/
def checkName (name : String) : Except Issue Unit :=
  if !Text.isName name.toList then .error (.nameSpelling name)
  else if hasDoubleUnderscore name.toList then .error (.nameDoubleUnderscore name)
  else if Expr.isFunction name || (Expr.constant? name).isSome then .error (.nameReserved name)
  else .ok ()

/-- The table with one more parameter. Its expression may name earlier ones with
or without a `$`. -/
def define (table : ParameterTable) (name expression : String) (line : Nat) :
    Except Issue ParameterTable := do
  checkName name
  match table.find? name with
  | some earlier => throw (.redefinition name earlier.line)
  | none =>
    let value ← (Expr.evalText (table.scope .parameters) expression).mapError
      (Issue.evaluation expression)
    return ⟨table.entries ++ [⟨name, value, expression, line⟩]⟩

end ParameterTable

end CadTimeline
