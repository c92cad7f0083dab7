import CadTimeline.Text.Blank

/-!
# Fields of a line

Commas separate the fields of a line and a `#` outside quotes ends it. A field
between double quotes is kept as it stands, with every quote inside written
twice; any other field is trimmed. Only a quoted field may be empty.
-/

namespace CadTimeline

open Text

structure Field where
  text : String
  /-- The field was written between double quotes. -/
  quoted : Bool
deriving DecidableEq, Repr

namespace Field

/-- Why a line cannot be split. Fields are counted from one. -/
inductive Fault where
  | unterminatedQuote (field : Nat)
  | unexpectedQuote (field : Nat)
  | textAfterQuote (field : Nat)
  | onlySeparators
  | empty (field : Nat)
deriving DecidableEq, Repr

/-- The plain field whose characters were read in reverse. -/
def ofPlain (seen : List Char) : Field :=
  ⟨String.ofList (trim seen.reverse), false⟩

/-- The quoted field whose characters were read in reverse. -/
def ofQuoted (seen : List Char) : Field :=
  ⟨String.ofList seen.reverse, true⟩

mutual

/-- The fields from the `n`-th one on, of which `seen` has been read in reverse. -/
def splitPlain (n : Nat) (seen : List Char) : List Char → Except Fault (List Field)
  | [] => .ok [ofPlain seen]
  | '#' :: _ => .ok [ofPlain seen]
  | ',' :: cs => (splitPlain (n + 1) [] cs).map (ofPlain seen :: ·)
  | '"' :: cs => if seen.all isBlank then splitQuoted n [] cs else .error (.unexpectedQuote n)
  | c :: cs => splitPlain n (c :: seen) cs

/-- The same from within the quotes of the `n`-th field. -/
def splitQuoted (n : Nat) (seen : List Char) : List Char → Except Fault (List Field)
  | [] => .error (.unterminatedQuote n)
  | '"' :: '"' :: cs => splitQuoted n ('"' :: seen) cs
  | '"' :: cs => splitClosed n seen cs
  | c :: cs => splitQuoted n (c :: seen) cs

/-- The same from behind the closing quote of the `n`-th field. -/
def splitClosed (n : Nat) (seen : List Char) : List Char → Except Fault (List Field)
  | [] => .ok [ofQuoted seen]
  | '#' :: _ => .ok [ofQuoted seen]
  | ',' :: cs => (splitPlain (n + 1) [] cs).map (ofQuoted seen :: ·)
  | '"' :: _ => .error (.unexpectedQuote n)
  | c :: cs => if isBlank c then splitClosed n seen cs else .error (.textAfterQuote n)

end

def isVacant (f : Field) : Bool :=
  f.text.isEmpty && !f.quoted

/-- The fields of a line, none for a line with no content. -/
def checkVacant (fields : List Field) : Except Fault (List Field) :=
  if fields.all isVacant then
    if fields.length > 1 then .error .onlySeparators else .ok []
  else
    match fields.findIdx? isVacant with
    | some i => .error (.empty (i + 1))
    | none => .ok fields

/-- A line without the byte order mark at its start. -/
def dropMark : List Char → List Char
  | '\uFEFF' :: cs => cs
  | cs => cs

/-- The fields of a raw line; a blank or comment line has none. -/
def splitLine (raw : List Char) : Except Fault (List Field) := do
  checkVacant (← splitPlain 1 [] (dropMark raw))

namespace Fault

def message : Fault → String
  | unterminatedQuote n => s!"unterminated quote in field {n}"
  | unexpectedQuote n => s!"unexpected quote in field {n}"
  | textAfterQuote n => s!"text after closing quote in field {n}"
  | onlySeparators => "line contains only separators"
  | empty n => s!"empty field {n}"

end Fault

end Field

end CadTimeline
