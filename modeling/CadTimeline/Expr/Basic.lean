/-!
# Expressions

The tree of an arithmetic expression and the names it refers to.
-/

namespace CadTimeline

inductive BinaryOp where
  | add
  | sub
  | mul
  | div
  | pow
deriving DecidableEq, Repr

/-- An arithmetic expression. A `parameter` is written `$name`; a `bare` name is a
constant, or a parameter where those may be named without the `$`. -/
inductive Expr where
  | number (value : Float)
  | parameter (name : String)
  | bare (name : String)
  | call (function : String) (args : List Expr)
  | neg (operand : Expr)
  | binary (op : BinaryOp) (left right : Expr)
deriving Repr

namespace Expr

mutual

/-- The names that the expression refers to, in order of appearance. The name of
a called function is not among them. -/
def references : Expr → List String
  | number _ => []
  | parameter name => [name]
  | bare name => [name]
  | call _ args => allReferences args
  | neg operand => references operand
  | binary _ left right => references left ++ references right

def allReferences : List Expr → List String
  | [] => []
  | e :: es => references e ++ allReferences es

end

theorem allReferences_eq_flatMap (es : List Expr) : allReferences es = es.flatMap references := by
  induction es with
  | nil => rfl
  | cons e es ih => simp [allReferences, ih]

end Expr

end CadTimeline
