/-!
# JSON documents

Values whose fields keep their order, and their text with one item a line.
-/

namespace CadTimeline

inductive Document where
  | text (value : String)
  /-- A number, given by its text. -/
  | number (literal : String)
  | list (items : List Document)
  | record (fields : List (String × Document))

namespace Document

def ofNat (n : Nat) : Document :=
  number (toString n)

def texts (values : List String) : Document :=
  list (values.map text)

def hexDigit (n : Nat) : Char :=
  (Nat.toDigits 16 n).headD '0'

/-- A character inside a quoted text. -/
def escape (c : Char) : List Char :=
  if c = '"' then ['\\', '"']
  else if c = '\\' then ['\\', '\\']
  else if c = '\n' then ['\\', 'n']
  else if c = '\r' then ['\\', 'r']
  else if c = '\t' then ['\\', 't']
  else if c.toNat = 8 then ['\\', 'b']
  else if c.toNat = 12 then ['\\', 'f']
  else if c.toNat < 32 then
    ['\\', 'u', '0', '0', hexDigit (c.toNat / 16), hexDigit (c.toNat % 16)]
  else [c]

def quoted (s : String) : String :=
  String.ofList ('"' :: s.toList.flatMap escape ++ ['"'])

/-- The start of a line at a depth of nesting. -/
def newLine (depth : Nat) : String :=
  String.ofList ('\n' :: List.replicate (2 * depth) ' ')

mutual

/-- The text of a document that stands at a depth of nesting. -/
def layout (depth : Nat) : Document → String
  | text value => quoted value
  | number literal => literal
  | list items =>
    if items.isEmpty then "[]"
    else "[" ++ String.intercalate "," (layoutItems (depth + 1) items) ++ newLine depth ++ "]"
  | record fields =>
    if fields.isEmpty then "\x7b\x7d"
    else
      "\x7b" ++ String.intercalate "," (layoutFields (depth + 1) fields) ++ newLine depth ++ "\x7d"

def layoutItems (depth : Nat) : List Document → List String
  | [] => []
  | item :: items => (newLine depth ++ layout depth item) :: layoutItems depth items

def layoutFields (depth : Nat) : List (String × Document) → List String
  | [] => []
  | (name, value) :: fields =>
    (newLine depth ++ quoted name ++ ": " ++ layout depth value) :: layoutFields depth fields

end

/-- The text of a document. -/
def render (document : Document) : String :=
  document.layout 0

/-- A field that is left out when its list is empty. -/
def unlessEmpty {α : Type} (name : String) (items : List α) (f : α → Document) :
    List (String × Document) :=
  if items.isEmpty then [] else [(name, list (items.map f))]

end Document

end CadTimeline
