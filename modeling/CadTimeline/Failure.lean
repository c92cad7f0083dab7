import CadTimeline.Issue
import CadTimeline.Output.Path
import CadTimeline.Store.Fault

/-!
# Failures

Why a timeline cannot be compiled: something is wrong with it, two of its files
would have the same path, or a file cannot be read or written.
-/

namespace CadTimeline

inductive Failure where
  | complaint (complaint : Complaint)
  /-- A path that two files would have, with the blocks that produce them. -/
  | collision (path : Path) (first second : Location)
  | store (path : Path) (fault : StoreFault)
deriving Repr

namespace Failure

def kind : Failure → String
  | complaint c => c.kind
  | collision .. => "PathCollisionError"
  | store .. => "IOError"

/-- The place that the failure is blamed on. -/
def location? : Failure → Option Location
  | complaint c => some c.location
  | collision _ _ second => some second
  | store .. => none

def message : Failure → String
  | complaint c => c.message
  | collision path first second =>
    s!"output file {path.text} is written by both {first.describe} and {second.describe}"
  | store path fault => s!"I/O error on {path.text}: {fault.message}"

end Failure

end CadTimeline
