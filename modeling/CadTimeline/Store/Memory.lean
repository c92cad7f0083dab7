import CadTimeline.Store.Host

/-!
# File trees in memory

A file store that is a value. Files and directories are found by the names on the
way from the root; relative paths start at a working directory. Names and faults
follow the rules of a Unix file system without links or permissions.
-/

namespace CadTimeline

/-- What stands at a place in a file tree. -/
inductive Node where
  | file (content : ByteArray)
  | directory

/-- The names on the way from the root to a place. -/
abbrev Place := List String

structure FileTree where
  nodes : List (Place × Node)
  workingDirectory : Place

namespace FileTree

/-- A tree that holds nothing but an empty working directory. -/
def empty : FileTree :=
  ⟨[(["work"], .directory)], ["work"]⟩

def node? (tree : FileTree) (place : Place) : Option Node :=
  if place.isEmpty then some .directory else tree.nodes.lookup place

def insert (tree : FileTree) (place : Place) (node : Node) : FileTree :=
  { tree with nodes := tree.nodes.filter (·.1 != place) ++ [(place, node)] }

/-- The place that the segments of a path lead to. Every place that is passed must
be a directory; the last one may be missing. -/
def walk (tree : FileTree) (place : Place) : List String → Except StoreFault Place
  | [] => .ok place
  | segment :: rest =>
    match tree.node? place with
    | none => .error .notFound
    | some (.file _) => .error .notDirectory
    | some .directory =>
      if segment = "" ∨ segment = "." then tree.walk place rest
      else if segment = ".." then tree.walk place.dropLast rest
      else if segment.utf8ByteSize > 255 then .error .nameTooLong
      else tree.walk (place ++ [segment]) rest

def resolve (tree : FileTree) (path : Path) : Except StoreFault Place :=
  if path.text.toList.contains '\x00' then .error .nulInName
  else if path.text.isEmpty then .error .notFound
  else if path.text.utf8ByteSize ≥ 4096 then .error .nameTooLong
  else
    tree.walk (if path.isAbsolute then [] else tree.workingDirectory)
      (path.segments.map String.ofList)

def read (tree : FileTree) (path : Path) : Except StoreFault ByteArray := do
  match tree.node? (← tree.resolve path) with
  | some (.file content) => return content
  | some .directory => throw .isDirectory
  | none => throw .notFound

/-- The path without the separators behind its last segment. -/
def withoutTail (path : Path) : Path :=
  match path.text.toList.reverse.dropWhile (· == '/') with
  | [] => path
  | reversed => ⟨String.ofList reversed.reverse⟩

/-- Makes an empty file, or empties the one that is there. Only a directory can have a
path with a separator at its end. -/
def create (tree : FileTree) (path : Path) : Except StoreFault FileTree := do
  let place ← tree.resolve (withoutTail path)
  if withoutTail path ≠ path then throw .isDirectory
  match tree.node? place with
  | some .directory => throw .isDirectory
  | _ => return tree.insert place (.file .empty)

/-- Gives a file that is there this content. -/
def fill (tree : FileTree) (path : Path) (content : ByteArray) : Except StoreFault FileTree := do
  let place ← tree.resolve path
  match tree.node? place with
  | some (.file _) => return tree.insert place (.file content)
  | some .directory => throw .isDirectory
  | none => throw .notFound

def write (tree : FileTree) (path : Path) (content : ByteArray) : Except StoreFault FileTree := do
  (← tree.create path).fill path content

def isDirectory (tree : FileTree) (path : Path) : Bool :=
  match tree.resolve path with
  | .ok place => match tree.node? place with
    | some .directory => true
    | _ => false
  | .error _ => false

def isPresent (tree : FileTree) (path : Path) : Bool :=
  match tree.resolve path with
  | .ok place => (tree.node? place).isSome
  | .error _ => false

/-- Makes one directory. -/
def makeDirectory (tree : FileTree) (path : Path) : Except StoreFault FileTree := do
  let place ← tree.resolve (withoutTail path)
  match tree.node? place with
  | some _ => throw .alreadyExists
  | none => return tree.insert place .directory

/-- A change of the tree that leaves it alone when it fails. -/
def change (f : FileTree → Except StoreFault FileTree) :
    StateM FileTree (Except StoreFault Unit) := do
  match f (← get) with
  | .ok tree => set tree; return .ok ()
  | .error fault => return .error fault

/-- Access to a tree that a program carries along. -/
def host : Host (StateM FileTree) where
  read path := return (← get).read path
  create path := change (·.create path)
  fill path content := change (·.fill path content)
  makeDirectory path := change (·.makeDirectory path)
  isDirectory path := return (← get).isDirectory path
  isPresent path := return (← get).isPresent path

end FileTree

end CadTimeline
