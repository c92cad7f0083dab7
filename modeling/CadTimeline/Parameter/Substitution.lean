import CadTimeline.Expr.Eval

/-!
# References in text

A `$` with a name after it stands for the value of a parameter, written as a
plain decimal. Every other `$` stands for itself.
-/

namespace CadTimeline.Substitution

open Text

/-- One character of a text, or a reference in it. -/
inductive Piece where
  | char (c : Char)
  | reference (name : String)
deriving DecidableEq, Repr

/-- The text read as characters and references. -/
def pieces (cs : List Char) : List Piece :=
  match cs with
  | [] => []
  | c :: cs =>
    if c = '$' ∧ takeName cs ≠ [] then
      .reference (String.ofList (takeName cs)) :: pieces (dropName cs)
    else .char c :: pieces cs
termination_by cs.length
decreasing_by
  · exact Nat.lt_succ_of_le (length_dropName_le cs)
  · simp

/-- What a piece stands for. -/
def fill (value? : String → Option Float) : Piece → Except Expr.Fault (List Char)
  | .char c => .ok [c]
  | .reference name => (Expr.resolve name (value? name)).map fun x => (Number.plain x).toList

/-- The text with its references replaced; the first name without a value is the
fault. -/
def substitute (value? : String → Option Float) (text : String) : Except Expr.Fault String := do
  let filled ← (pieces text.toList).mapM (fill value?)
  return String.ofList filled.flatten

end CadTimeline.Substitution
