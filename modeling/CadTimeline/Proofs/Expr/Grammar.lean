import CadTimeline.Expr.Parser

/-!
# The grammar of expressions

    sum     ::= sum (+|-) term | term
    term    ::= term (*|/) unary | unary
    unary   ::= - unary | + unary | power
    power   ::= primary [** unary]
    primary ::= number | name | $name | name(sum, …, sum) | (sum)

Every rule says which tree its phrase stands for; parentheses and a `+` in front of an
operand leave no trace.
-/

namespace CadTimeline

inductive Phrase where
  | sum
  | term
  | unary
  | power
  | primary
deriving DecidableEq

namespace Phrase

/-- How tightly a phrase holds together. -/
def level : Phrase → Nat
  | sum => 0
  | term => 1
  | unary => 2
  | power => 3
  | primary => 4

/-- What each looser phrase takes over from the next tighter one, it takes over from
all tighter ones. -/
theorem loosen {P : Phrase → Prop} (hsum : P .term → P .sum) (hterm : P .unary → P .term)
    (hunary : P .power → P .unary) (hpower : P .primary → P .power) {place own : Phrase}
    (hle : place.level ≤ own.level) (h : P own) : P place := by
  have step_unary : P .primary → P .unary := hunary ∘ hpower
  have step_term : P .power → P .term := hterm ∘ hunary
  cases place with
  | sum =>
      cases own with
      | sum => exact h
      | term => exact hsum h
      | unary => exact hsum (hterm h)
      | power => exact hsum (step_term h)
      | primary => exact hsum (hterm (step_unary h))
  | term =>
      cases own with
      | sum => exact absurd hle (by decide)
      | term => exact h
      | unary => exact hterm h
      | power => exact step_term h
      | primary => exact hterm (step_unary h)
  | unary =>
      cases own with
      | unary => exact h
      | power => exact hunary h
      | primary => exact step_unary h
      | _ => exact absurd hle (by decide)
  | power =>
      cases own with
      | power => exact h
      | primary => exact hpower h
      | _ => exact absurd hle (by decide)
  | primary =>
      cases own with
      | primary => exact h
      | _ => exact absurd hle (by decide)

end Phrase

/-- The tokens between the parentheses of a call. -/
def Token.joinArguments (arguments : List (List Token)) : List Token :=
  [Token.comma].intercalate arguments

theorem Token.joinArguments_cons_cons (first second : List Token) (rest : List (List Token)) :
    joinArguments (first :: second :: rest) =
      first ++ comma :: joinArguments (second :: rest) := by
  simp [joinArguments, List.intercalate]

/-- The tokens are a phrase that stands for the tree. -/
inductive Derives : Phrase → List Token → Expr → Prop
  | add {left right : List Token} {a b : Expr} (ha : Derives .sum left a)
      (hb : Derives .term right b) : Derives .sum (left ++ .plus :: right) (.binary .add a b)
  | sub {left right : List Token} {a b : Expr} (ha : Derives .sum left a)
      (hb : Derives .term right b) : Derives .sum (left ++ .minus :: right) (.binary .sub a b)
  | term {ts : List Token} {e : Expr} (h : Derives .term ts e) : Derives .sum ts e
  | mul {left right : List Token} {a b : Expr} (ha : Derives .term left a)
      (hb : Derives .unary right b) : Derives .term (left ++ .star :: right) (.binary .mul a b)
  | div {left right : List Token} {a b : Expr} (ha : Derives .term left a)
      (hb : Derives .unary right b) : Derives .term (left ++ .slash :: right) (.binary .div a b)
  | unary {ts : List Token} {e : Expr} (h : Derives .unary ts e) : Derives .term ts e
  | neg {ts : List Token} {e : Expr} (h : Derives .unary ts e) :
      Derives .unary (.minus :: ts) (.neg e)
  | pos {ts : List Token} {e : Expr} (h : Derives .unary ts e) : Derives .unary (.plus :: ts) e
  | power {ts : List Token} {e : Expr} (h : Derives .power ts e) : Derives .unary ts e
  | exponent {base ts : List Token} {a b : Expr} (ha : Derives .primary base a)
      (hb : Derives .unary ts b) : Derives .power (base ++ .power :: ts) (.binary .pow a b)
  | primary {ts : List Token} {e : Expr} (h : Derives .primary ts e) : Derives .power ts e
  | number (numeral : Numeral) : Derives .primary [.number numeral] (.number numeral.toFloat)
  | bare (name : String) : Derives .primary [.name name] (.bare name)
  | parameter (name : String) : Derives .primary [.reference name] (.parameter name)
  | call (function : String) {arguments : List (List Token × Expr)}
      (h : ∀ argument ∈ arguments, Derives .sum argument.1 argument.2) :
      Derives .primary
        (.name function :: .opening :: Token.joinArguments (arguments.map Prod.fst) ++ [.closing])
        (.call function (arguments.map Prod.snd))
  | group {ts : List Token} {e : Expr} (h : Derives .sum ts e) :
      Derives .primary (.opening :: ts ++ [.closing]) e

/-- A phrase stands wherever a looser one may. -/
theorem Derives.loosen {place own : Phrase} {ts : List Token} {e : Expr}
    (h : Derives own ts e) (hle : place.level ≤ own.level) : Derives place ts e :=
  Phrase.loosen (P := fun phrase => Derives phrase ts e) .term .unary .power .primary hle h

end CadTimeline
