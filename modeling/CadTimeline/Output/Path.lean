import CadTimeline.Text.Visible

/-!
# Paths

A path is kept as it was put together and compared by its components, so that
doubled separators and `.` segments inside it make no difference.
-/

namespace CadTimeline

structure Path where
  text : String
deriving DecidableEq, Repr

namespace Path

inductive Component where
  | root
  | here
  | up
  | name (text : List Char)
deriving DecidableEq, Repr

def segments (path : Path) : List (List Char) :=
  path.text.toList.splitOn '/'

def Component.ofSegment? : List Char → Option Component
  | [] => none
  | ['.'] => none
  | ['.', '.'] => some .up
  | text => some (.name text)

/-- The components of a path. Only a `.` at its start is one of them. -/
def components (path : Path) : List Component :=
  match path.segments with
  | [] => []
  | first :: rest =>
    let front : List Component :=
      if path.text.isEmpty then []
      else if first = [] then [.root]
      else if first = ['.'] then [.here]
      else (Component.ofSegment? first).toList
    front ++ rest.filterMap Component.ofSegment?

/-- Equality of paths by their components. -/
def same (p q : Path) : Bool :=
  p.components == q.components

def isAbsolute (path : Path) : Bool :=
  path.text.toList.head? == some '/'

/-- The path with one more piece. An absolute piece replaces the path. -/
def join (path : Path) (piece : String) : Path :=
  if (Path.mk piece).isAbsolute || path.text.isEmpty then ⟨piece⟩
  else if path.text.toList.getLast? == some '/' then ⟨path.text ++ piece⟩
  else ⟨path.text ++ "/" ++ piece⟩

def joinAll (path : Path) (pieces : List String) : Path :=
  pieces.foldl join path

/-- Whether a segment is a component that is not the first. -/
def isInner (segment : List Char) : Bool :=
  (Component.ofSegment? segment).isSome

/-- The segments of a path, last one first, from the last component on. -/
def trimSegments (reversed : List (List Char)) : List (List Char) :=
  match reversed with
  | [] => []
  | [first] => [first]
  | segment :: rest => if isInner segment then segment :: rest else trimSegments rest

def ofReversed (reversed : List (List Char)) : Path :=
  match reversed.reverse with
  | [[]] => ⟨"/"⟩
  | segments => ⟨String.ofList (['/'].intercalate segments)⟩

/-- The path without its last component, if that is not the root. -/
def parent? (path : Path) : Option Path :=
  if path.text.isEmpty then none
  else
    match trimSegments path.segments.reverse with
    | [] => none
    | [[]] => none
    | [_] => some ⟨""⟩
    | _ :: rest => some (ofReversed (trimSegments rest))

/-- A character of a path between quotes. One that is not visible is shown by its
number. -/
def escape (c : Char) : List Char :=
  if c = '"' then ['\\', '"']
  else if c = '\\' then ['\\', '\\']
  else if c = '\n' then ['\\', 'n']
  else if c = '\r' then ['\\', 'r']
  else if c = '\t' then ['\\', 't']
  else if c = '\x00' then ['\\', '0']
  else if Text.isVisible c then [c]
  else ['\\', 'u', '\x7b'] ++ Nat.toDigits 16 c.toNat ++ ['\x7d']

/-- The path between quotes, for messages. -/
def quoted (path : Path) : String :=
  String.ofList ('"' :: path.text.toList.flatMap escape ++ ['"'])

end Path

end CadTimeline
