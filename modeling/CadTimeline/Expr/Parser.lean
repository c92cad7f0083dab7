import CadTimeline.Expr.Basic
import CadTimeline.Expr.Token

/-!
# Reading expressions

An expression is first read as a flat sequence of signs, operands and operators,

    expr    ::= sign* primary (operator sign* primary)*
    primary ::= number | name(expr, …, expr) | $name | name | (expr)

where every choice takes the first alternative that fits and every repetition goes on
as long as it can. The sequence is then grouped by binding powers. The first argument
of the functions bounds the depth of the calls; `parse?` gives enough of it for every
text.
-/

namespace CadTimeline

/-- A piece of an expression that has not been grouped yet. -/
inductive Part where
  /-- A sign in front of an operand; a `+` leaves no trace in the tree. -/
  | sign (negative : Bool)
  | operand (value : Expr)
  | operator (op : BinaryOp)
deriving Repr

/-! ## Grouping -/

namespace BinaryOp

/-- How strongly the operator binds. -/
def bindingPower : BinaryOp → Nat
  | add => 20
  | sub => 20
  | mul => 30
  | div => 30
  | pow => 50

/-- What an operator must exceed to belong to the right operand of this one. Equal
operators go on at the left, except `**`. -/
def rightBound : BinaryOp → Nat
  | pow => 49
  | op => op.bindingPower

end BinaryOp

namespace Part

/-- What an operator must exceed to belong to the operand of a sign, which binds with a
power of 40. -/
def signBound : Nat := 39

def signed (negative : Bool) (operand : Expr) : Expr :=
  if negative then .neg operand else operand

mutual

/-- The longest tree at the front of the parts in which every operator outside signs
and right operands exceeds the bound. -/
def climb : Nat → Nat → List Part → Option (Expr × List Part)
  | 0, _, _ => none
  | depth + 1, bound, parts => do
    let (left, rest) ← start depth parts
    extend depth bound left rest

/-- An operand with the signs before it. -/
def start : Nat → List Part → Option (Expr × List Part)
  | 0, _ => none
  | depth + 1, sign negative :: parts => do
    let (inner, rest) ← climb depth signBound parts
    some (signed negative inner, rest)
  | _ + 1, operand value :: parts => some (value, parts)
  | _ + 1, _ => none

/-- The tree with the operators that follow it, as far as they exceed the bound. -/
def extend : Nat → Nat → Expr → List Part → Option (Expr × List Part)
  | 0, _, _, _ => none
  | depth + 1, bound, left, operator op :: parts =>
    if bound < op.bindingPower then do
      let (right, rest) ← climb depth op.rightBound parts
      extend depth bound (.binary op left right) rest
    else some (left, operator op :: parts)
  | _ + 1, _, left, parts => some (left, parts)

end

/-- The tree of a sequence of parts. -/
def regroup? (parts : List Part) : Option Expr :=
  (climb (2 * parts.length + 2) 0 parts).map Prod.fst

end Part

/-! ## Reading the sequence -/

namespace Token

/-- The sign that a token is. -/
def sign? : Token → Option Bool
  | plus => some false
  | minus => some true
  | _ => none

def operator? : Token → Option BinaryOp
  | plus => some .add
  | minus => some .sub
  | star => some .mul
  | slash => some .div
  | power => some .pow
  | _ => none

end Token

namespace Expr

/-- The signs at the front of the tokens, with what follows them. -/
def takeSigns : List Token → List Part × List Token
  | [] => ([], [])
  | t :: ts =>
    match t.sign? with
    | some negative => (.sign negative :: (takeSigns ts).1, (takeSigns ts).2)
    | none => ([], t :: ts)

mutual

/-- The longest expression at the front of the tokens. -/
def expression : Nat → List Token → Option (Expr × List Token)
  | 0, _ => none
  | depth + 1, ts => do
    let (first, rest) ← signedPrimary depth ts
    let (more, rest) := operations depth rest
    let value ← Part.regroup? (first ++ more)
    some (value, rest)

/-- A primary with the signs before it. -/
def signedPrimary : Nat → List Token → Option (List Part × List Token)
  | 0, _ => none
  | depth + 1, ts => do
    let (signs, rest) := takeSigns ts
    let (value, rest) ← primary depth rest
    some (signs ++ [.operand value], rest)

/-- Operators with a signed primary each. An operator without one is left over. -/
def operations : Nat → List Token → List Part × List Token
  | 0, ts => ([], ts)
  | _ + 1, [] => ([], [])
  | depth + 1, t :: ts =>
    match t.operator? with
    | none => ([], t :: ts)
    | some op =>
      match signedPrimary depth ts with
      | some (operand, rest) =>
        let (more, rest) := operations depth rest
        (.operator op :: operand ++ more, rest)
      | none => ([], t :: ts)

/-- A name that no call follows stands for itself. -/
def primary : Nat → List Token → Option (Expr × List Token)
  | 0, _ => none
  | _ + 1, .number numeral :: ts => some (.number numeral.toFloat, ts)
  | depth + 1, .name name :: ts => (application depth name ts).or (some (.bare name, ts))
  | _ + 1, .reference name :: ts => some (.parameter name, ts)
  | depth + 1, .opening :: ts => do
    match ← expression depth ts with
    | (inner, .closing :: rest) => some (inner, rest)
    | _ => none
  | _ + 1, _ => none

/-- What follows the name of a function: its arguments between parentheses. -/
def application : Nat → String → List Token → Option (Expr × List Token)
  | depth + 1, function, .opening :: ts =>
    match arguments depth ts with
    | (args, .closing :: rest) => some (.call function args, rest)
    | _ => none
  | _, _, _ => none

/-- The arguments of a call, if there are any. -/
def arguments : Nat → List Token → List Expr × List Token
  | 0, ts => ([], ts)
  | depth + 1, ts =>
    match expression depth ts with
    | some (first, rest) =>
      let (more, rest) := furtherArguments depth rest
      (first :: more, rest)
    | none => ([], ts)

/-- The arguments after the first one, each behind a comma. -/
def furtherArguments : Nat → List Token → List Expr × List Token
  | depth + 1, .comma :: ts =>
    match expression depth ts with
    | some (first, rest) =>
      let (more, rest) := furtherArguments depth rest
      (first :: more, rest)
    | none => ([], .comma :: ts)
  | _, ts => ([], ts)

end

/-- The expression that all the tokens together spell. -/
def ofTokens? (ts : List Token) : Option Expr :=
  match expression (6 * ts.length + 6) ts with
  | some (e, []) => some e
  | _ => none

/-- The expression that a text spells. -/
def parse? (cs : List Char) : Option Expr :=
  (Token.scan cs).bind ofTokens?

end Expr

end CadTimeline
