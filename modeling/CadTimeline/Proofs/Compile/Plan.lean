import CadTimeline.Compile.Emit
import Mathlib.Data.List.Basic

/-!
# The output plan

The files of a timeline in the order in which they are written: every action file
with the co rails of its segments behind it, then all cross rails. Writing a timeline
is writing its plan output by output.
-/

namespace CadTimeline.Analysis

/-- The file of an action, and behind it its co rails. -/
def actionOutputs (analysis : Analysis) (root : Path) (action : Action) : List Output :=
  analysis.actionOutput root action ::
    (action.coRails root).map (analysis.railOutput action.line)

def crossRailOutputs (analysis : Analysis) (root : Path) (rails : CrossRails × LengthUnit) :
    List Output :=
  (rails.1.sketches analysis.sketches root rails.2).map (analysis.railOutput rails.1.line)

/-- The files of a timeline below an output root. -/
def plan (analysis : Analysis) (root : Path) : List Output :=
  analysis.actions.flatMap (analysis.actionOutputs root) ++
    analysis.crossRails.flatMap (analysis.crossRailOutputs root)

variable {m : Type → Type} [Monad m]

private theorem forM_map {α β : Type} (f : α → β) (g : β → m PUnit) (xs : List α) :
    (xs.map f).forM g = xs.forM fun x => g (f x) := by
  induction xs with
  | nil => rfl
  | cons x xs ih =>
      rw [List.map_cons]
      simp only [List.forM_eq_forM, List.forM_cons] at ih ⊢
      rw [ih]

theorem writeAction_eq_forM (analysis : Analysis) (put : Put m) (root : Path)
    (action : Action) :
    analysis.writeAction put root action =
      (analysis.actionOutputs root action).forM (writeOutput put) := by
  have hrails := forM_map (analysis.railOutput action.line) (writeOutput put)
    (action.coRails root)
  rw [writeAction, Keyword.findSchema_action, actionOutputs]
  simp only [List.forM_eq_forM, List.forM_cons] at hrails ⊢
  rw [hrails]
  rfl

theorem writeCrossRails_eq_forM (analysis : Analysis) (put : Put m) (root : Path)
    (rails : CrossRails × LengthUnit) :
    analysis.writeCrossRails put root rails =
      (analysis.crossRailOutputs root rails).forM (writeOutput put) :=
  (forM_map _ _ _).symm

variable [LawfulMonad m]

private theorem forM_flatMap {α β : Type} (f : α → List β) (g : β → m PUnit) (xs : List α) :
    (xs.flatMap f).forM g = xs.forM fun x => (f x).forM g := by
  induction xs with
  | nil => rfl
  | cons x xs ih =>
      simp only [List.forM_eq_forM] at ih ⊢
      rw [List.flatMap_cons, List.forM_append, List.forM_cons, ih]

/-- Writing a timeline goes through its plan. -/
theorem write_eq_forM_plan (analysis : Analysis) (put : Put m) (root : Path) :
    analysis.write put root = (analysis.plan root).forM (writeOutput put) := by
  have hactions := forM_flatMap (analysis.actionOutputs root) (writeOutput put) analysis.actions
  have hrails := forM_flatMap (analysis.crossRailOutputs root) (writeOutput put)
    analysis.crossRails
  rw [write, funext (analysis.writeAction_eq_forM put root),
    funext (analysis.writeCrossRails_eq_forM put root), plan]
  simp only [List.forM_eq_forM, List.forM_append] at hactions hrails ⊢
  rw [hactions, hrails]

end CadTimeline.Analysis
