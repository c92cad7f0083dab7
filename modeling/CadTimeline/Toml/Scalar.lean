import CadTimeline.Decimal.Numeral
import CadTimeline.Toml.Text

/-!
# Reading TOML values without parts

Strings are read to their text; of numbers and times only the form and the range
are checked.
-/

namespace CadTimeline.Toml

def isGap (c : Char) : Bool :=
  c == ' ' || c == '\t'

def skipGap (cs : List Char) : List Char :=
  cs.dropWhile isGap

/-- What follows the end of a line. -/
def newline? : List Char → Option (List Char)
  | '\n' :: cs => some cs
  | '\r' :: '\n' :: cs => some cs
  | _ => none

def hexValue? (c : Char) : Option Nat :=
  if c.isDigit then some (c.toNat - '0'.toNat)
  else if 'a' ≤ c ∧ c ≤ 'f' then some (c.toNat - 'a'.toNat + 10)
  else if 'A' ≤ c ∧ c ≤ 'F' then some (c.toNat - 'A'.toNat + 10)
  else none

/-- The character whose code point is given by these hexadecimal digits. -/
def codePoint? (width : Nat) (digits : List Char) : Option Char := do
  if digits.length ≠ width then none
  let n := (← digits.mapM hexValue?).foldl (fun n d => 16 * n + d) 0
  if h : n.isValidChar then some (Char.ofNatAux n h) else none

/-- The character that an escape behind a backslash stands for. -/
def unescape? : List Char → Option (Char × List Char)
  | 'b' :: cs => some ('\x08', cs)
  | 't' :: cs => some ('\t', cs)
  | 'n' :: cs => some ('\n', cs)
  | 'f' :: cs => some ('\x0C', cs)
  | 'r' :: cs => some ('\r', cs)
  | '"' :: cs => some ('"', cs)
  | '\\' :: cs => some ('\\', cs)
  | 'u' :: cs => (codePoint? 4 (cs.take 4)).map (·, cs.drop 4)
  | 'U' :: cs => (codePoint? 8 (cs.take 8)).map (·, cs.drop 8)
  | _ => none

/-- The kinds of string, by what ends them and what they admit. -/
structure StringForm where
  quote : Char
  escapes : Bool
  lines : Bool

/-- Skips blanks and line ends. -/
def skipBlankLines : List Char → List Char
  | [] => []
  | '\r' :: '\n' :: cs => skipBlankLines cs
  | c :: cs => if isGap c || c == '\n' then skipBlankLines cs else c :: cs

/-- Skips the blank rest of a line after a backslash and the blanks that start the
next lines. -/
def skipBreak? (cs : List Char) : Option (List Char) :=
  (newline? (skipGap cs)).map skipBlankLines

/-- The text up to the end of a string. The number bounds the characters read. -/
def readString (form : StringForm) (seen : List Char) :
    Nat → List Char → Option (String × List Char)
  | 0, _ => none
  | _, [] => none
  | n + 1, c :: cs =>
    if c = form.quote then
      if form.lines then
        let more := (cs.takeWhile (· == form.quote)).length
        if more < 2 then readString form (c :: seen) n cs
        else
          let kept := List.replicate (min (more - 2) 2) form.quote
          some (String.ofList (kept ++ seen).reverse, cs.drop (min more 4))
      else some (String.ofList seen.reverse, cs)
    else if c = '\\' ∧ form.escapes then
      match unescape? cs with
      | some (d, rest) => readString form (d :: seen) n rest
      | none =>
        if form.lines then (skipBreak? cs).bind (readString form seen n) else none
    else
      match newline? (c :: cs) with
      | some rest => if form.lines then readString form ('\n' :: seen) n rest else none
      | none => if isControl c then none else readString form (c :: seen) n cs

/-- What follows a line end directly behind the opening delimiter. -/
def dropFirstBreak (cs : List Char) : List Char :=
  (newline? cs).getD cs

def string? (cs : List Char) : Option (String × List Char) :=
  match cs with
  | '"' :: '"' :: '"' :: rest => readString ⟨'"', true, true⟩ [] cs.length (dropFirstBreak rest)
  | '\'' :: '\'' :: '\'' :: rest =>
    readString ⟨'\'', false, true⟩ [] cs.length (dropFirstBreak rest)
  | '"' :: rest => readString ⟨'"', true, false⟩ [] cs.length rest
  | '\'' :: rest => readString ⟨'\'', false, false⟩ [] cs.length rest
  | _ => none

/-- Digits in groups that single underscores separate. -/
def isDigits (digit : Char → Bool) (cs : List Char) : Bool :=
  (cs.splitOn '_').all fun group => !group.isEmpty && group.all digit

def dropSign : List Char → List Char
  | '+' :: cs => cs
  | '-' :: cs => cs
  | cs => cs

/-- A decimal integer without a sign; a zero stands alone. -/
def isDecimal (cs : List Char) : Bool :=
  isDigits Char.isDigit cs && (cs.length == 1 || cs.head? != some '0')

/-- The value of digits in a base, underscores left out. -/
def valueIn (base : Nat) (cs : List Char) : Nat :=
  (cs.filterMap hexValue?).foldl (fun n d => base * n + d) 0

def isInteger (cs : List Char) : Bool :=
  match cs with
  | '0' :: 'x' :: ds => isDigits (fun c => (hexValue? c).isSome) ds && valueIn 16 ds < Nat.pow 2 63
  | '0' :: 'o' :: ds => isDigits (fun c => '0' ≤ c && c ≤ '7') ds && valueIn 8 ds < Nat.pow 2 63
  | '0' :: 'b' :: ds => isDigits (fun c => c == '0' || c == '1') ds && valueIn 2 ds < Nat.pow 2 63
  | _ =>
    let digits := dropSign cs
    let limit := if cs.head? = some '-' then Nat.pow 2 63 else Nat.pow 2 63 - 1
    isDecimal digits && valueIn 10 digits ≤ limit

def isExponent (cs : List Char) : Bool :=
  isDigits Char.isDigit (dropSign cs)

/-- The part of a float before its exponent. -/
def isMantissa (cs : List Char) : Bool :=
  match cs.splitOn '.' with
  | [whole] => isDecimal whole
  | [whole, fraction] => isDecimal whole && isDigits Char.isDigit fraction
  | _ => false

def isFloat (cs : List Char) : Bool :=
  let size := dropSign cs
  if size = ['i', 'n', 'f'] ∨ size = ['n', 'a', 'n'] then true
  else
    match size.splitOnP fun c => c == 'e' || c == 'E' with
    | [mantissa] => mantissa.contains '.' && isMantissa mantissa
    | [mantissa, exponent] => isMantissa mantissa && isExponent exponent
    | _ => false

/-- Whether the double nearest to a float is infinite. A negative float is not held
to that bound. -/
def isTooLarge (cs : List Char) : Bool :=
  cs.head? != some '-' &&
    (Numeral.scan ((dropSign cs).filter (· != '_'))).any fun (numeral, _) =>
      numeral.toDecimal.rank == Binary64.infinityRank

/-- Exactly `width` digits with a value in a range. -/
def isField (width least most : Nat) (cs : List Char) : Bool :=
  cs.length == width && cs.all Char.isDigit && least ≤ valueIn 10 cs && valueIn 10 cs ≤ most

def daysIn (year month : Nat) : Nat :=
  if month = 2 then if year % 4 = 0 ∧ (year % 100 ≠ 0 ∨ year % 400 = 0) then 29 else 28
  else if month = 4 ∨ month = 6 ∨ month = 9 ∨ month = 11 then 30
  else 31

def isDate (cs : List Char) : Bool :=
  match cs.splitOn '-' with
  | [year, month, day] =>
    isField 4 0 9999 year && isField 2 1 12 month &&
      isField 2 1 (daysIn (valueIn 10 year) (valueIn 10 month)) day
  | _ => false

def isClock (cs : List Char) : Bool :=
  match cs.splitOn ':' with
  | [hour, minute] => isField 2 0 23 hour && isField 2 0 59 minute
  | _ => false

def isTime (cs : List Char) : Bool :=
  let seconds := cs.drop 6
  let fraction := seconds.drop 2
  isClock (cs.take 5) && (cs.drop 5).head? == some ':' && isField 2 0 60 (seconds.take 2) &&
    (fraction.isEmpty ||
      (fraction.head? == some '.' && fraction.length > 1 && (fraction.drop 1).all Char.isDigit))

def isOffset (cs : List Char) : Bool :=
  match cs with
  | ['Z'] => true
  | ['z'] => true
  | '+' :: clock => isClock clock
  | '-' :: clock => isClock clock
  | _ => false

/-- A time of day, with or without an offset. -/
def isTimeWithOffset (cs : List Char) : Bool :=
  let time := cs.takeWhile fun c => c.isDigit || c == ':' || c == '.'
  let offset := cs.drop time.length
  isTime time && (offset.isEmpty || isOffset offset)

def isDateTime (cs : List Char) : Bool :=
  isTime cs || isDate cs ||
    (isDate (cs.take 10) &&
      ((cs.drop 10).head?.any fun c => c == 'T' || c == 't' || c == ' ') &&
      isTimeWithOffset (cs.drop 11))

def isWordChar (c : Char) : Bool :=
  c.isAlphanum || c == '+' || c == '-' || c == '.' || c == '_' || c == ':'

/-- The characters of a number, a time or a truth value. A space may stand between
a date and a time of day. -/
def word (cs : List Char) : List Char × List Char :=
  let first := cs.takeWhile isWordChar
  let rest := cs.dropWhile isWordChar
  match rest with
  | ' ' :: c :: more =>
    if isDate first && c.isDigit then
      (first ++ ' ' :: (c :: more).takeWhile isWordChar, (c :: more).dropWhile isWordChar)
    else (first, rest)
  | _ => (first, rest)

end CadTimeline.Toml
