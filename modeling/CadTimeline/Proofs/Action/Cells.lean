import CadTimeline.Proofs.Action.File
import CadTimeline.Rails.Cross

/-!
# Files as rows of values

Every file of a timeline is written from rows of values: an action file from the words and names
of its preamble and from its records, a rail sketch from the plane, the segment and the points.
-/

namespace CadTimeline

/-- The text of a file with these rows. -/
def File.ofCells (rows : List (List Value)) : String :=
  String.join (rows.map fun row => File.row (row.map Value.written))

theorem File.toList_ofCells (rows : List (List Value)) :
    (ofCells rows).toList = fileText (rows.map fun row => row.map Value.display) := by
  rw [← toList_rows, List.map_map, ofCells]
  simp only [map_written]
  rfl

theorem File.ofCells_append (rows others : List (List Value)) :
    ofCells (rows ++ others) = ofCells rows ++ ofCells others := by
  apply String.toList_inj.mp
  rw [String.toList_append]
  simp only [toList_ofCells, List.map_append, fileText, List.flatMap_append]

theorem Value.map_display_text (texts : List String) :
    (texts.map Value.text).map Value.display = texts := by
  rw [List.map_map]
  exact List.map_id texts

/-! ## Records and actions -/

namespace Record

/-- The values that the line of a record is written from. -/
def headCells (record : Record) : List Value :=
  (if record.keyShown then record.key.map Value.text else []) ++ record.values

/-- The rows that a record is written from. -/
def cells (record : Record) : List (List Value) :=
  if record.headCells.isEmpty then record.rows else record.headCells :: record.rows

theorem map_display_headCells (record : Record) :
    record.headCells.map Value.display = record.shownHead := by
  rw [headCells, shownHead, List.map_append]
  split
  · rw [Value.map_display_text]
  · rfl

theorem map_display_cells (record : Record) :
    (record.cells.map fun row => row.map Value.display) = record.shown := by
  rw [cells, shown, ← map_display_headCells, List.isEmpty_map]
  split
  · rfl
  · rfl

theorem file_eq (record : Record) : File.record record = File.ofCells record.cells := by
  apply String.toList_inj.mp
  rw [File.toList_ofCells, map_display_cells, File.toList_record]

end Record

namespace Action

/-- The rows that the file of an action is written from. -/
def cells (action : Action) : List (List Value) :=
  action.front.map (fun row => row.map Value.text) ++ action.records.flatMap Record.cells

theorem file_eq (action : Action) : action.file = File.ofCells action.cells := by
  apply String.toList_inj.mp
  have hfront : ((action.front.map fun row => row.map Value.text).map
      fun row => row.map Value.display) = action.front := by
    rw [List.map_map]
    exact (List.map_congr_left fun row _ => Value.map_display_text row).trans (List.map_id _)
  have hrecords : ((action.records.flatMap Record.cells).map fun row => row.map Value.display) =
      action.shown := by
    rw [List.map_flatMap, shown]
    exact List.flatMap_congr fun record _ => record.map_display_cells
  rw [toList_file, File.toList_ofCells, cells, List.map_append, hfront, hrecords]

end Action

/-! ## Rail sketches -/

namespace RailSketch

/-- The rows before the segments of a sketch. -/
def front (unit : LengthUnit) (axis : Axis) (offset : Float) : List (List Value) :=
  [[.text ActionKind.sketch.word], [.text unit.word], [.text axis.word, .number offset]]

theorem quoted_axis (axis : Axis) : Text.quoted axis.word = axis.word := by
  cases axis <;> decide +kernel

theorem preamble_eq (unit : LengthUnit) (axis : Axis) (offset : Float) :
    preamble unit axis offset = File.ofCells (front unit axis offset) := by
  apply String.toList_inj.mp
  have hjoin : File.ofCells (front unit axis offset) = String.join
      [File.row [Text.quoted ActionKind.sketch.word], File.row [Text.quoted unit.word],
        File.row [Text.quoted axis.word, Number.plain offset]] := rfl
  rw [hjoin, ActionKind.quoted_word, LengthUnit.quoted_word, quoted_axis, String.toList_join,
    preamble]
  simp

end RailSketch

/-- A co rail is written from its plane and its segment. -/
theorem Action.exists_segment_of_mem_coRails {action : Action} {root : Path} {sketch : RailSketch}
    (h : sketch ∈ action.coRails root) :
    ∃ axis offset segment, action.plane? = some (axis, offset) ∧ segment ∈ action.segments ∧
      sketch.text =
        File.ofCells (RailSketch.front action.unit axis offset ++ segment.cells) := by
  unfold coRails at h
  cases hplane : action.plane? with
  | none =>
      rw [hplane] at h
      exact absurd h List.not_mem_nil
  | some plane =>
      obtain ⟨axis, offset⟩ := plane
      rw [hplane] at h
      obtain ⟨segment, hsegment, hsome⟩ := List.mem_filterMap.mp h
      obtain ⟨rail, -, rfl⟩ := Option.map_eq_some_iff.mp hsome
      refine ⟨axis, offset, segment, rfl, hsegment, ?_⟩
      rw [File.ofCells_append, ← RailSketch.preamble_eq, ← Record.file_eq]

namespace CrossRails

/-- The coordinates of a point as the sketch of the rail has them. -/
def railCoordinates (rails : CrossRails) (point : Point) : Float × Float :=
  let (a, b) := point.project rails.railNormal
  (roundCents a, roundCents b)

/-- The row of a point in the sketch of the rail. -/
def pointCells (rails : CrossRails) (point : Point) : List Value :=
  [.number (rails.railCoordinates point).1, .number (rails.railCoordinates point).2]

/-- The rows that the sketch of a rail is written from. -/
def cells (rails : CrossRails) (unit : LengthUnit) (offset : Float) (points : List Point) :
    List (List Value) :=
  RailSketch.front unit rails.railNormal offset ++ [[.text rails.segmentWord]] ++
    points.map rails.pointCells

variable {rails : CrossRails} {profiles : List Action} {root : Path} {unit : LengthUnit}
  {offset : Float} {rail : String} {sketch : RailSketch}

/-- A rail has a sketch when it has two points, and the sketch has a row for each of them. -/
theorem text_of_sketch? (h : rails.sketch? profiles root unit offset rail = some sketch) :
    2 ≤ (rails.points profiles rail offset).length ∧
      sketch.text = RailSketch.preamble unit rails.railNormal offset ++
        File.row [rails.segmentWord] ++
          String.join ((rails.points profiles rail offset).map rails.pointRow) := by
  unfold sketch? at h
  dsimp only at h
  split at h
  · contradiction
  · rename_i hmany
    cases h
    exact ⟨Nat.not_lt.mp hmany, rfl⟩

/-- The same, from rows of values. -/
theorem sketch?_eq_some (hword : Text.quoted rails.segmentWord = rails.segmentWord)
    (h : rails.sketch? profiles root unit offset rail = some sketch) :
    2 ≤ (rails.points profiles rail offset).length ∧
      sketch.text = File.ofCells (rails.cells unit offset (rails.points profiles rail offset)) := by
  obtain ⟨hmany, htext⟩ := text_of_sketch? h
  generalize rails.points profiles rail offset = points at hmany htext ⊢
  have hheading : File.row [rails.segmentWord] = File.ofCells [[.text rails.segmentWord]] := by
    rw [File.ofCells, List.map_singleton, List.map_singleton, Value.written, hword]
    rfl
  have hpoints : String.join (points.map rails.pointRow) =
      File.ofCells (points.map rails.pointCells) := by
    rw [File.ofCells, List.map_map]
    rfl
  refine ⟨hmany, ?_⟩
  rw [htext, cells, File.ofCells_append, File.ofCells_append, ← RailSketch.preamble_eq, ← hheading,
    ← hpoints]

end CrossRails

end CadTimeline
