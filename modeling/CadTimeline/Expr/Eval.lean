import CadTimeline.Expr.Parser
import CadTimeline.Binary64.Whole
import CadTimeline.Binary64.Hypot
import CadTimeline.Decimal.Plain

/-!
# Evaluation

The value of an expression where some names have values. Operands and arguments
are visited from left to right and the first fault is reported; the name of a
called function is checked before its arguments, their number after them.
-/

namespace CadTimeline

/-- How names without a `$` are resolved: in a parameters block constants come
first and parameters second, elsewhere there are only constants. -/
inductive BareNames where
  | parameters
  | constantsOnly
deriving DecidableEq, Repr

/-- The names that an expression can use. -/
structure Scope where
  value? : String → Option Float
  bareNames : BareNames

namespace Expr

/-- Why an expression or a text with references has no value. -/
inductive Fault where
  | undefined (name : String)
  | disallowed (function : String)
  | unreadable
  | argumentCount (function : String) (count : Nat)
  | notFinite (value : Float)
deriving Repr

def constants : List (String × Float) :=
  [("pi", 3.141592653589793), ("e", 2.718281828459045), ("tau", 6.283185307179586)]

def constant? (name : String) : Option Float :=
  constants.lookup name

def degreesPerRadian : Float := 57.29577951308232

def radiansPerDegree : Float := 0.017453292519943295

/-- The functions of one argument. -/
def unaryFunctions : List (String × (Float → Float)) :=
  [("sin", Float.sin), ("cos", Float.cos), ("tan", Float.tan), ("asin", Float.asin),
    ("acos", Float.acos), ("atan", Float.atan), ("sqrt", Float.sqrt),
    ("degrees", (· * degreesPerRadian)), ("radians", (· * radiansPerDegree)),
    ("fabs", Float.abs), ("abs", Float.abs), ("exp", Float.exp), ("log", Float.log),
    ("log10", Float.log10), ("floor", Binary64.floor), ("ceil", Binary64.ceil)]

/-- The functions of two arguments; the second argument of `log` is the base. -/
def binaryFunctions : List (String × (Float → Float → Float)) :=
  [("atan2", Float.atan2), ("power", Float.pow), ("pow", Float.pow),
    ("log", fun x base => Float.log x / Float.log base), ("hypot", Binary64.hypot)]

/-- The names that may be called. -/
def functions : List String :=
  ["sin", "cos", "tan", "asin", "acos", "atan", "atan2", "sqrt", "degrees", "radians", "fabs",
    "abs", "power", "pow", "exp", "log", "log10", "floor", "ceil", "hypot"]

def isFunction (name : String) : Bool :=
  functions.contains name

/-- The function of that name at these arguments, if it takes that many. -/
def result? (function : String) : List Float → Option Float
  | [x] => (unaryFunctions.lookup function).map fun f => f x
  | [x, y] => (binaryFunctions.lookup function).map fun f => f x y
  | _ => none

def BinaryOp.apply : BinaryOp → Float → Float → Float
  | .add, x, y => x + y
  | .sub, x, y => x - y
  | .mul, x, y => x * y
  | .div, x, y => x / y
  | .pow, x, y => Float.pow x y

/-- The value of a name without a `$`. Constants cannot be redefined. -/
def bareValue? (scope : Scope) (name : String) : Option Float :=
  (constant? name).or <|
    match scope.bareNames with
    | .parameters => scope.value? name
    | .constantsOnly => none

def resolve (name : String) (value : Option Float) : Except Fault Float :=
  match value with
  | some x => .ok x
  | none => .error (.undefined name)

mutual

def eval (scope : Scope) : Expr → Except Fault Float
  | number value => .ok value
  | parameter name => resolve name (scope.value? name)
  | bare name => resolve name (bareValue? scope name)
  | call function args =>
    if isFunction function then do
      let values ← evalAll scope args
      match result? function values with
      | some value => .ok value
      | none => .error (.argumentCount function values.length)
    else .error (.disallowed function)
  | neg operand => do
    let x ← eval scope operand
    return -x
  | binary op left right => do
    let x ← eval scope left
    let y ← eval scope right
    return BinaryOp.apply op x y

def evalAll (scope : Scope) : List Expr → Except Fault (List Float)
  | [] => .ok []
  | e :: es => do
    let x ← eval scope e
    let xs ← evalAll scope es
    return x :: xs

end

/-- The finite value of the expression that a text spells. -/
def evalText (scope : Scope) (text : String) : Except Fault Float :=
  match parse? text.toList with
  | none => .error .unreadable
  | some e => do
    let value ← eval scope e
    if value.isFinite then return value else .error (.notFinite value)

namespace Fault

def message : Fault → String
  | undefined name => s!"undefined parameter `{name}`"
  | disallowed function => s!"function `{function}` is not allowed"
  | unreadable => "<parse>"
  | argumentCount function count => s!"wrong number of arguments for `{function}`: {count}"
  | notFinite value => s!"does not evaluate to a finite number ({Number.display value})"

end Fault

end Expr

end CadTimeline
