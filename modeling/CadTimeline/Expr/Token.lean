import CadTimeline.Text.Name
import CadTimeline.Decimal.Numeral

/-!
# Tokens of an expression

Spaces and tabs may stand between tokens. A token is as long as it can be: `**`
is one operator, and `1e5` one numeral.
-/

namespace CadTimeline

open Text

inductive Token where
  | number (numeral : Numeral)
  | name (text : String)
  | reference (name : String)
  | plus
  | minus
  | star
  | power
  | slash
  | opening
  | closing
  | comma
deriving DecidableEq, Repr

namespace Token

def isGap (c : Char) : Bool :=
  c == ' ' || c == '\t'

/-- The token at the start of a text that does not start with a gap. -/
def next : List Char → Option (Token × List Char)
  | [] => none
  | '+' :: cs => some (plus, cs)
  | '-' :: cs => some (minus, cs)
  | '*' :: '*' :: cs => some (power, cs)
  | '*' :: cs => some (star, cs)
  | '/' :: cs => some (slash, cs)
  | '(' :: cs => some (opening, cs)
  | ')' :: cs => some (closing, cs)
  | ',' :: cs => some (comma, cs)
  | '$' :: cs =>
    if takeName cs = [] then none else some (reference (String.ofList (takeName cs)), dropName cs)
  | cs =>
    if takeName cs = [] then (Numeral.scan cs).map fun (numeral, rest) => (number numeral, rest)
    else some (name (String.ofList (takeName cs)), dropName cs)

theorem length_next_lt {cs rest : List Char} {t : Token} (h : next cs = some (t, rest)) :
    rest.length < cs.length := by
  unfold next at h
  split at h
  case h_11 =>
    split at h
    · obtain ⟨⟨n, r⟩, hs, he⟩ := Option.map_eq_some_iff.1 h
      cases he
      exact Numeral.length_scan_lt hs
    · cases h
      exact length_dropName_lt ‹_›
  case h_10 cs =>
    split at h
    · contradiction
    · cases h
      exact Nat.lt_succ_of_le (length_dropName_le cs)
  all_goals cases h; try simp; try omega

/-- All tokens of the text, or nothing if some part of it is no token. -/
def scan (cs : List Char) : Option (List Token) :=
  match cs with
  | [] => some []
  | c :: cs =>
    if isGap c then scan cs
    else
      match _ : next (c :: cs) with
      | none => none
      | some (t, rest) => (scan rest).map (t :: ·)
termination_by cs.length
decreasing_by
  · simp
  · exact length_next_lt ‹_›

theorem scan_cons {c : Char} {cs : List Char} (h : ¬isGap c) :
    scan (c :: cs) = (next (c :: cs)).bind fun (t, rest) => (scan rest).map (t :: ·) := by
  rw [scan, if_neg h]
  split
  · rename_i heq
    rw [heq]
    rfl
  · rename_i heq
    rw [heq]
    rfl

end Token

end CadTimeline
