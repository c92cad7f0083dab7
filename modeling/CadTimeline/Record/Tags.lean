import CadTimeline.Record.Basic

/-!
# Rail tags of a line

The fields of a segment line from the first unquoted `co_rail` or `cross_rails`
on. Each of these words takes the fields up to the next one as rail names.
-/

namespace CadTimeline

inductive TagWord where
  | coRail
  | crossRails
deriving DecidableEq, Repr

namespace TagWord

def word : TagWord → String
  | coRail => "co_rail"
  | crossRails => "cross_rails"

/-- How many names the word takes, for messages. -/
def expected : TagWord → String
  | coRail => "1 rail name"
  | crossRails => "at least 1 rail name"

def ofField? (field : Field) : Option TagWord :=
  if field.quoted then none
  else if field.text == coRail.word then some coRail
  else if field.text == crossRails.word then some crossRails
  else none

def tag? : TagWord → List String → Option Tag
  | coRail, [name] => some (.coRail name)
  | coRail, _ => none
  | crossRails, [] => none
  | crossRails, names => some (.crossRails names)

end TagWord

namespace Tag

/-- The fields before the first tag word, and every tag word with the fields up
to the next one. -/
def groups : List Field → List Field × List (TagWord × List Field)
  | [] => ([], [])
  | field :: fields =>
    let (before, later) := groups fields
    match TagWord.ofField? field with
    | some word => ([], (word, before) :: later)
    | none => (field :: before, later)

/-- The tag of a word with the names after it. -/
def read (scope : Scope) (word : TagWord) (fields : List Field) : Except Issue Tag := do
  let names ← fields.mapM fun field => scope.substitute field.text
  match word.tag? names with
  | some tag => return tag
  | none => throw (.tagNames word.word word.expected names.length)

end Tag

end CadTimeline
