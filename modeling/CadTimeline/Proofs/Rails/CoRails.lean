import CadTimeline.Proofs.Action.Sketch
import CadTimeline.Rails.Sketch

/-!
# Co rails and their tags

A segment may carry any number of co rail tags, but the sketch of a co rail is looked up by the
first of them. So there is a sketch for every tag exactly when no segment has two.
-/

namespace CadTimeline

def Tag.coRail? : Tag → Option String
  | coRail name => some name
  | crossRails _ => none

namespace Record

/-- The names in the co rail tags, in order. -/
def coRailNames (record : Record) : List String :=
  record.tags.filterMap Tag.coRail?

theorem coRail?_eq_head? (record : Record) : record.coRail? = record.coRailNames.head? := by
  unfold coRail? coRailNames
  rw [List.head?_filterMap]
  rfl

end Record

namespace Action

variable {action : Action} {root : Path} {axis : Axis} {offset : Float}

/-- The sketch of a segment as the co rail of this name. -/
def coRailSketch (action : Action) (root : Path) (axis : Axis) (offset : Float) (segment : Record)
    (rail : String) : RailSketch :=
  let name := FileName.sketch axis.word offset s!"{action.destination.name}_{rail}"
  { path := (action.destination.railsDirectory root).join name
    text := RailSketch.preamble action.unit axis offset ++ File.record segment }

/-- The co rails are those of the first co rail tag of each segment. -/
theorem coRails_eq (h : action.plane? = some (axis, offset)) :
    action.coRails root = action.segments.flatMap fun segment =>
      (segment.coRailNames.take 1).map (action.coRailSketch root axis offset segment) := by
  rw [coRails, h]
  dsimp only
  induction action.segments with
  | nil => rfl
  | cons segment segments ih =>
      rw [List.filterMap_cons, List.flatMap_cons, ih, Record.coRail?_eq_head?]
      cases segment.coRailNames with
      | nil => rfl
      | cons rail rails => rfl

end Action

section FirstOfEach

variable {α β : Type} {f : α → List β} {xs : List α}

theorem length_flatMap_take_le :
    (xs.flatMap fun x => (f x).take 1).length ≤ (xs.flatMap f).length := by
  induction xs with
  | nil => exact Nat.le_refl _
  | cons x xs ih =>
      rw [List.flatMap_cons, List.flatMap_cons, List.length_append, List.length_append]
      exact Nat.add_le_add (List.length_take_le' 1 (f x)) ih

/-- The first element of each list is all there is when no list has two. -/
theorem flatMap_take_eq_iff :
    (xs.flatMap fun x => (f x).take 1) = xs.flatMap f ↔ ∀ x ∈ xs, (f x).length ≤ 1 := by
  induction xs with
  | nil => exact iff_of_true rfl (List.forall_mem_nil _)
  | cons x xs ih =>
      rw [List.flatMap_cons, List.flatMap_cons, List.forall_mem_cons, ← ih]
      constructor
      · intro h
        have hlength := congrArg List.length h
        have hrest : (xs.flatMap fun x => (f x).take 1).length ≤ (xs.flatMap f).length :=
          length_flatMap_take_le
        rw [List.length_append, List.length_append, List.length_take] at hlength
        have hone : (f x).length ≤ 1 := by omega
        rw [List.take_of_length_le hone] at h
        exact ⟨hone, List.append_cancel_left h⟩
      · rintro ⟨hone, hrest⟩
        rw [List.take_of_length_le hone, hrest]

end FirstOfEach

namespace Analysis

variable {file source : String} {unit : LengthUnit} {analysis : Analysis} {action : Action}

/-- The co rails of a sketch are those of the first co rail tag of each segment. There is one for
every co rail tag exactly when no segment has two. -/
theorem coRails_eq_iff (h : ofSource file source unit = .ok analysis)
    (hmem : action ∈ analysis.sketches) (root : Path) :
    ∃ axis offset, action.plane? = some (axis, offset) ∧
      (action.coRails root = action.segments.flatMap fun segment =>
        (segment.coRailNames.take 1).map (action.coRailSketch root axis offset segment)) ∧
      ((action.coRails root = action.segments.flatMap fun segment =>
        segment.coRailNames.map (action.coRailSketch root axis offset segment)) ↔
          ∀ segment ∈ action.segments, segment.coRailNames.length ≤ 1) := by
  obtain ⟨hkind, scope, block, hfrom⟩ := exists_fromBlock_of_mem_sketches h hmem
  obtain ⟨axis, offset, -, -, hplane, -, -⟩ := hfrom.exists_plane hkind
  refine ⟨axis, offset, hplane, Action.coRails_eq hplane, ?_⟩
  rw [Action.coRails_eq hplane]
  simp only [List.map_take]
  rw [flatMap_take_eq_iff]
  simp only [List.length_map]

/-- A sketch in which a segment is the co rail of each of these names. -/
def coRailed (tags : String) : String :=
  "sketch, s, a\noffset_plane, z, 0\nline" ++ tags ++ "\n0, 0\n0, 5\n"

theorem exists_coRails_left : ∃ analysis action axis offset,
    ofSource "t.txt" (coRailed ", co_rail, left, cross_rails, r") .mm = .ok analysis ∧
      action ∈ analysis.sketches ∧ (action.coRails ⟨"out"⟩).length = 1 ∧
      action.coRails ⟨"out"⟩ = action.segments.flatMap fun segment =>
        segment.coRailNames.map (action.coRailSketch ⟨"out"⟩ axis offset segment) := by
  have hone : ((ofSource "t.txt" (coRailed ", co_rail, left, cross_rails, r") .mm).toOption.any
      fun analysis => analysis.sketches.any fun action =>
        (action.coRails ⟨"out"⟩).length == 1 && action.segments.all fun segment =>
          decide (segment.coRailNames.length ≤ 1)) = true := by
    decide +kernel
  obtain ⟨analysis, hread, hany⟩ := exists_of_toOption_any hone
  obtain ⟨action, hmem, hall⟩ := List.any_eq_true.mp hany
  simp only [Bool.and_eq_true, beq_iff_eq, List.all_eq_true, decide_eq_true_eq] at hall
  obtain ⟨axis, offset, -, -, hiff⟩ := coRails_eq_iff hread hmem ⟨"out"⟩
  exact ⟨analysis, action, axis, offset, hread, hmem, hall.1, hiff.mpr hall.2⟩

/-- Not every co rail tag has its sketch. -/
theorem exists_coRails_lost : ∃ analysis action segment,
    ofSource "t.txt" (coRailed ", co_rail, left, co_rail, right") .mm = .ok analysis ∧
      action ∈ analysis.sketches ∧ action.segments = [segment] ∧
      segment.coRailNames = ["left", "right"] ∧ (action.coRails ⟨"out"⟩).length = 1 := by
  have hlost : ((ofSource "t.txt" (coRailed ", co_rail, left, co_rail, right") .mm).toOption.any
      fun analysis => analysis.sketches.any fun action =>
        (action.coRails ⟨"out"⟩).length == 1 &&
          action.segments.map Record.coRailNames == [["left", "right"]]) = true := by
    decide +kernel
  obtain ⟨analysis, hread, hany⟩ := exists_of_toOption_any hlost
  obtain ⟨action, hmem, hboth⟩ := List.any_eq_true.mp hany
  simp only [Bool.and_eq_true, beq_iff_eq] at hboth
  obtain ⟨hlength, hnames⟩ := hboth
  obtain ⟨segment, rest, hsegments, hsegment, hrest⟩ := List.map_eq_cons_iff.mp hnames
  rw [List.map_eq_nil_iff] at hrest
  exact ⟨analysis, action, segment, hread, hmem, hrest ▸ hsegments, hsegment, hlength⟩

end Analysis

end CadTimeline
