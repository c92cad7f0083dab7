import CadTimeline.Failure

/-!
# Reserved paths

The output paths that the files of a run have taken, each with the block that
took it. A path can be taken once, however it is spelled.
-/

namespace CadTimeline

structure Reservations where
  entries : List (Path × Location)
deriving Repr

namespace Reservations

def empty : Reservations := ⟨[]⟩

def size (reserved : Reservations) : Nat :=
  reserved.entries.length

/-- The location that has taken the path. -/
def holder? (reserved : Reservations) (path : Path) : Option Location :=
  (reserved.entries.find? fun entry => entry.1.same path).map Prod.snd

/-- Takes a free path for a location. -/
def reserve (reserved : Reservations) (path : Path) (location : Location) :
    Except Failure Reservations :=
  match reserved.holder? path with
  | some first => .error (.collision path first location)
  | none => .ok ⟨reserved.entries ++ [(path, location)]⟩

end Reservations

end CadTimeline
