import CadTimeline.Timeline.Keyword
import CadTimeline.Timeline.Line

/-!
# Blocks of a timeline

A line whose first field is an unquoted keyword opens a block. Its body are the
lines up to the next one that opens a block or cannot be split.
-/

namespace CadTimeline

structure Block where
  keyword : Keyword
  header : Line
  body : List Line
deriving DecidableEq, Repr

namespace Block

/-- One line of a source, or the fault of one that cannot be split. -/
abbrev Item := Except Line.Fault Line

/-- What a source consists of: blocks, lines outside any block, and lines that
cannot be split. -/
inductive Entry where
  | block (block : Block)
  | stray (line : Line)
  | broken (fault : Line.Fault)

/-- The lines that an entry was made of. -/
def Entry.items : Entry → List Item
  | .block b => .ok b.header :: b.body.map .ok
  | .stray line => [.ok line]
  | .broken fault => [.error fault]

/-- The keyword that a line starts with. A quoted first field is always data. -/
def keyword? (line : Line) : Option Keyword :=
  match line.fields with
  | [] => none
  | field :: _ => if field.quoted then none else Keyword.ofWord? field.text

/-- Whether a line ends a block of this keyword by opening the next one. -/
def opens (current : Keyword) (line : Line) : Bool :=
  match keyword? line with
  | some .echo => !current.acceptsEcho
  | some _ => true
  | none => false

/-- The line of an item that belongs to the body of a block of this keyword. -/
def bodyLine? (current : Keyword) : Item → Option Line
  | .ok line => if opens current line then none else some line
  | .error _ => none

/-- The entries of a source, in order. -/
def entries : List Item → List Entry
  | [] => []
  | .error fault :: items => .broken fault :: entries items
  | .ok line :: items =>
    match keyword? line with
    | none => .stray line :: entries items
    | some keyword =>
      let inBody := fun item => (bodyLine? keyword item).isSome
      let body := (items.takeWhile inBody).filterMap (bodyLine? keyword)
      .block ⟨keyword, line, body⟩ :: entries (items.dropWhile inBody)
termination_by items => items.length
decreasing_by
  all_goals simp only [List.length_cons]
  · omega
  · omega
  · exact Nat.lt_succ_of_le (List.dropWhile_sublist _).length_le

/-- The line number of the header. -/
def number (block : Block) : Nat :=
  block.header.number

/-- How messages name the block: the keyword with the name in the header. -/
def label (block : Block) : String :=
  match (block.header.text? 2).or (block.header.text? 1) with
  | some name =>
    if block.keyword = .echo then block.keyword.word else s!"{block.keyword.word} {name}"
  | none => block.keyword.word

end Block

end CadTimeline
