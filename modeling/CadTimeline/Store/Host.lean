import CadTimeline.Output.Path
import CadTimeline.Store.Fault

/-!
# Access to files

The operations on files that compilation needs, in any monad, and what is built
from them.
-/

namespace CadTimeline

/-- Access to a file store. -/
structure Host (m : Type → Type) where
  read : Path → m (Except StoreFault ByteArray)
  /-- Makes an empty file, or empties the one that is there. -/
  create : Path → m (Except StoreFault Unit)
  /-- Gives an empty file this content. -/
  fill : Path → ByteArray → m (Except StoreFault Unit)
  /-- Makes one directory. -/
  makeDirectory : Path → m (Except StoreFault Unit)
  isDirectory : Path → m Bool
  isPresent : Path → m Bool

/-- What writing a file changed. -/
inductive WriteStatus where
  | created
  | updated
  | unchanged
deriving DecidableEq, Repr

namespace WriteStatus

def word : WriteStatus → String
  | created => "created"
  | updated => "updated"
  | unchanged => "unchanged"

end WriteStatus

namespace Host

variable {m : Type → Type} [Monad m]

def readText (host : Host m) (path : Path) : m (Except StoreFault String) := do
  match ← host.read path with
  | .error fault => return .error fault
  | .ok bytes =>
    match String.fromUTF8? bytes with
    | some text => return .ok text
    | none => return .error .notText

/-- Makes one directory unless it is there. -/
def ensureDirectory (host : Host m) (path : Path) : m (Except StoreFault Unit) := do
  match ← host.makeDirectory path with
  | .ok _ => return .ok ()
  | .error fault => return if ← host.isDirectory path then .ok () else .error fault

/-- Makes a directory and those missing above it, at most `depth` of them. -/
def makeDirectoriesWithin (host : Host m) (path : Path) : Nat → m (Except StoreFault Unit)
  | 0 => return .error .notFound
  | depth + 1 => do
    if path.text.isEmpty then return .ok ()
    match ← host.ensureDirectory path with
    | .error .notFound =>
      match path.parent? with
      | none => return .error .notFound
      | some parent =>
        match ← host.makeDirectoriesWithin parent depth with
        | .error fault => return .error fault
        | .ok _ => host.ensureDirectory path
    | result => return result

/-- Makes a directory and all that are missing above it. -/
def makeDirectories (host : Host m) (path : Path) : m (Except StoreFault Unit) :=
  host.makeDirectoriesWithin path (path.text.length + 1)

/-- Makes the file anew with this content. If the second call fails, what the file held
before is gone. -/
def write (host : Host m) (path : Path) (content : ByteArray) : m (Except StoreFault Unit) := do
  match ← host.create path with
  | .error fault => return .error fault
  | .ok _ => host.fill path content

/-- What writing the content would change. A file that cannot be read counts as
missing. -/
def status (existing : Except StoreFault ByteArray) (content : ByteArray) : WriteStatus :=
  match existing with
  | .error _ => .created
  | .ok bytes => if bytes == content then .unchanged else .updated

/-- Gives the file this content, unless it has it already. A fault comes with the
path that it is about: the file, or the directory that should hold it. -/
def put (host : Host m) (path : Path) (text : String) :
    m (Except (Path × StoreFault) WriteStatus) := do
  let content := text.toUTF8
  let overwrite : m (Except (Path × StoreFault) WriteStatus) := do
    let status := status (← host.read path) content
    if status = .unchanged then return .ok status
    else return ((← host.write path content).map fun _ => status).mapError (path, ·)
  match path.parent? with
  | none => overwrite
  | some parent =>
    match ← host.makeDirectories parent with
    | .error fault => return .error (parent, fault)
    | .ok _ => overwrite

end Host

end CadTimeline
