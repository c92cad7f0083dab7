import CadTimeline.Proofs.Binary64.Quotient
import CadTimeline.Proofs.Decimal.Finite
import CadTimeline.Proofs.Rails.Block

/-!
# Numbers in files

The values of records are finite, so they are written as plain decimals, and so is every plane
that is taken from them. The coordinates of a cross rail are computed once more, and that can
overflow.
-/

namespace CadTimeline

namespace Value

/-- Unless the value is a text, it is written as a plain decimal. -/
def IsPlain (v : Value) : Prop :=
  v.toText? = none → IsPlainDecimal v.written.toList

theorem isPlain_text (s : String) : (text s).IsPlain := by
  intro h
  contradiction

theorem isPlain_number_iff {x : Float} : (number x).IsPlain ↔ x.isFinite = true := by
  rw [← Number.isPlainDecimal_plain_iff]
  exact ⟨fun h => h rfl, fun h _ => h⟩

theorem isPlain_of_isFinite {v : Value} (h : ∀ x ∈ v.toFloat?, x.isFinite = true) : v.IsPlain := by
  cases v with
  | number x => exact isPlain_number_iff.mpr (h x rfl)
  | integer n => exact fun _ => Number.isPlainDecimal_integer n
  | text s => exact isPlain_text s

end Value

/-- Every number in these rows is written as a plain decimal. -/
def File.IsPlain (rows : List (List Value)) : Prop :=
  ∀ row ∈ rows, ∀ v ∈ row, v.IsPlain

theorem File.isPlain_append {rows others : List (List Value)} :
    IsPlain (rows ++ others) ↔ IsPlain rows ∧ IsPlain others :=
  List.forall_mem_append

theorem File.isPlain_cons {row : List Value} {rows : List (List Value)} :
    IsPlain (row :: rows) ↔ (∀ v ∈ row, v.IsPlain) ∧ IsPlain rows :=
  List.forall_mem_cons

/-! ## Records -/

namespace Record

/-- The numbers of the record and of its rows are finite. -/
structure IsFinite (record : Record) : Prop where
  values : ∀ v ∈ record.values, ∀ x ∈ v.toFloat?, x.isFinite = true
  rows : ∀ row ∈ record.rows, ∀ v ∈ row, ∀ x ∈ v.toFloat?, x.isFinite = true

theorem isFinite_of_read {schema : Schema} {scope : Scope} {block : Block} {records : List Record}
    (h : Body.read schema scope block = .ok records) {record : Record} (hmem : record ∈ records) :
    record.IsFinite := by
  have hfinite : ∀ v, scope.Gives v → ∀ x ∈ v.toFloat?, x.isFinite = true := by
    rintro v ⟨spec, field, hconverted⟩
    exact hconverted.isFinite
  obtain ⟨hvalues, hrows⟩ := Body.gives_of_read h hmem
  exact ⟨fun v hv => hfinite v (hvalues v hv), fun row hrow v hv => hfinite v (hrows row hrow v hv)⟩

theorem IsFinite.isPlain_cells {record : Record} (h : record.IsFinite) :
    File.IsPlain record.cells := by
  have hhead : ∀ v ∈ record.headCells, v.IsPlain := by
    refine List.forall_mem_append.mpr ⟨?_, fun v hv => Value.isPlain_of_isFinite (h.values v hv)⟩
    split
    · exact List.forall_mem_map.mpr fun word _ => Value.isPlain_text word
    · exact List.forall_mem_nil _
  have hrows : File.IsPlain record.rows :=
    fun row hrow v hv => Value.isPlain_of_isFinite (h.rows row hrow v hv)
  rw [cells]
  split
  · exact hrows
  · exact File.isPlain_cons.mpr ⟨hhead, hrows⟩

end Record

/-! ## Files -/

namespace Action

variable {kind : ActionKind} {scope : Scope} {unit : LengthUnit} {block : Block} {action : Action}

theorem isFinite_of_ofBlock (h : ofBlock kind scope unit block = .ok action) :
    ∀ record ∈ action.records, record.IsFinite := by
  obtain ⟨-, -, -, -, hread⟩ := ofBlock_eq_ok.mp h
  exact fun record hmem => Record.isFinite_of_read hread hmem

theorem isPlain_cells (h : ∀ record ∈ action.records, record.IsFinite) :
    File.IsPlain action.cells := by
  refine File.isPlain_append.mpr ⟨?_, ?_⟩
  · refine List.forall_mem_map.mpr fun row _ => List.forall_mem_map.mpr fun word _ => ?_
    exact Value.isPlain_text word
  · intro row hrow
    obtain ⟨record, hmem, hrow⟩ := List.mem_flatMap.mp hrow
    exact (h record hmem).isPlain_cells row hrow

/-- The offset of the plane of a sketch is a number of its records. -/
theorem isFinite_offset (h : ∀ record ∈ action.records, record.IsFinite) {axis : Axis}
    {offset : Float} (hplane : action.plane? = some (axis, offset)) : offset.isFinite = true := by
  unfold plane? at hplane
  split at hplane
  · cases hfind : action.records.find? isPlane with
    | none =>
        rw [hfind] at hplane
        contradiction
    | some record =>
        rw [hfind, Option.map_some] at hplane
        split at hplane
        · rename_i first second hvalues
          simp only [Option.bind_eq_bind, Option.bind_eq_some_iff] at hplane
          obtain ⟨word, -, x, hx, heq⟩ := hplane
          cases heq
          have hsecond : second ∈ record.values := by
            rw [Option.some.inj hvalues]
            exact List.mem_cons_of_mem _ List.mem_cons_self
          exact (h record (List.mem_of_find?_eq_some hfind)).values second hsecond _ hx
        · contradiction
  · contradiction

end Action

theorem RailSketch.isPlain_front_iff {unit : LengthUnit} {axis : Axis} {offset : Float} :
    File.IsPlain (front unit axis offset) ↔ offset.isFinite = true := by
  simp only [front, File.IsPlain, List.forall_mem_cons, List.not_mem_nil, false_imp_iff,
    implies_true, and_true, Value.isPlain_text, Value.isPlain_number_iff, true_and]

namespace CrossRails

theorem isFinite_roundCents_iff {x : Float} :
    (roundCents x).isFinite = true ↔ (x * 100.0).isFinite = true := by
  rw [roundCents, Binary64.isFinite_div_hundred_iff, Binary64.isFinite_round_iff]

theorem isFinite_of_mem_offsets {scope : Scope} {block : Block} {rails : CrossRails}
    (h : ofBlock scope block = .ok rails) {offset : Float} (hmem : offset ∈ rails.offsets) :
    offset.isFinite = true := by
  obtain ⟨-, -, -, records, -, hdefined⟩ := ofBlock_eq_ok.mp h
  exact hdefined.finite offset hmem

/-- No coordinate of the point overflows when it is multiplied by a hundred. -/
def IsRoundable (rails : CrossRails) (point : Point) : Prop :=
  ((point.project rails.railNormal).1 * 100.0).isFinite = true ∧
    ((point.project rails.railNormal).2 * 100.0).isFinite = true

instance (rails : CrossRails) (point : Point) : Decidable (rails.IsRoundable point) :=
  inferInstanceAs (Decidable (_ ∧ _))

theorem isPlain_pointCells_iff {rails : CrossRails} {point : Point} :
    (∀ v ∈ rails.pointCells point, v.IsPlain) ↔ rails.IsRoundable point := by
  rw [pointCells, List.forall_mem_cons, List.forall_mem_singleton, Value.isPlain_number_iff,
    Value.isPlain_number_iff]
  exact and_congr isFinite_roundCents_iff isFinite_roundCents_iff

theorem isPlain_cells_iff {rails : CrossRails} {unit : LengthUnit} {offset : Float}
    (h : offset.isFinite = true) {points : List Point} :
    File.IsPlain (rails.cells unit offset points) ↔ ∀ point ∈ points, rails.IsRoundable point := by
  -- Only the rows of the points are computed from other numbers.
  have hfront : File.IsPlain
      (RailSketch.front unit rails.railNormal offset ++ [[.text rails.segmentWord]]) := by
    refine File.isPlain_append.mpr ⟨RailSketch.isPlain_front_iff.mpr h, ?_⟩
    exact List.forall_mem_singleton.mpr (List.forall_mem_singleton.mpr (Value.isPlain_text _))
  rw [cells, File.isPlain_append, and_iff_right hfront, File.IsPlain, List.forall_mem_map]
  exact forall₂_congr fun point _ => isPlain_pointCells_iff

end CrossRails

namespace Analysis

variable {file source : String} {unit : LengthUnit} {analysis : Analysis}

theorem isFinite_of_mem_actions (h : ofSource file source unit = .ok analysis) {action : Action}
    (hmem : action ∈ analysis.actions) : ∀ record ∈ action.records, record.IsFinite := by
  obtain ⟨_, _, _, _, _, -, -, -, hof⟩ := exists_block_of_mem_actions h hmem
  exact Action.isFinite_of_ofBlock hof

/-- In the files of the actions and of their co rails every number is written as a plain decimal.
In the sketch of a cross rail this holds exactly when no coordinate of its points overflows when
it is multiplied by a hundred. -/
theorem isPlain_files (h : ofSource file source unit = .ok analysis) (root : Path) :
    (∀ action ∈ analysis.actions,
      (action.file = File.ofCells action.cells ∧ File.IsPlain action.cells) ∧
      ∀ sketch ∈ action.coRails root, ∃ axis offset segment,
        action.plane? = some (axis, offset) ∧ segment ∈ action.segments ∧
        sketch.text =
          File.ofCells (RailSketch.front action.unit axis offset ++ segment.cells) ∧
        File.IsPlain (RailSketch.front action.unit axis offset ++ segment.cells)) ∧
    ∀ rails ∈ analysis.crossRails,
      ∀ sketch ∈ rails.1.sketches analysis.sketches root rails.2,
        ∃ offset ∈ rails.1.offsets, ∃ rail ∈ rails.1.railNames,
          sketch.text = File.ofCells (rails.1.cells rails.2 offset
            (rails.1.points analysis.sketches rail offset)) ∧
          (File.IsPlain (rails.1.cells rails.2 offset
              (rails.1.points analysis.sketches rail offset)) ↔
            ∀ point ∈ rails.1.points analysis.sketches rail offset,
              rails.1.IsRoundable point) := by
  refine ⟨fun action hmem => ?_, fun rails hrails sketch hsketch => ?_⟩
  · have hfinite := isFinite_of_mem_actions h hmem
    refine ⟨⟨action.file_eq, Action.isPlain_cells hfinite⟩, fun sketch hsketch => ?_⟩
    obtain ⟨axis, offset, segment, hplane, hsegment, htext⟩ :=
      Action.exists_segment_of_mem_coRails hsketch
    refine ⟨axis, offset, segment, hplane, hsegment, htext, File.isPlain_append.mpr ⟨?_, ?_⟩⟩
    · exact RailSketch.isPlain_front_iff.mpr (Action.isFinite_offset hfinite hplane)
    · exact (hfinite segment (List.mem_of_mem_filter hsegment)).isPlain_cells
  · obtain ⟨_, _, _, _, -, -, -, -, hblock⟩ := exists_block_of_mem_crossRails h hrails
    obtain ⟨offset, hoffset, rail, hrail, -, htext⟩ :=
      CrossRails.exists_cells_of_mem_sketches hblock hsketch
    exact ⟨offset, hoffset, rail, hrail, htext,
      CrossRails.isPlain_cells_iff (CrossRails.isFinite_of_mem_offsets hblock hoffset)⟩

/-- A line with a co rail and a cross rail, and with this coordinate. -/
def farPoint (coordinate : String) : String :=
  "sketch, s, a\noffset_plane, z, -0.5\nline, co_rail, edge, cross_rails, r\n0, 0\n0, " ++
    coordinate ++ "\ncross_rails, rails\nrail_names, r\nprofile_plane_normal, z\n" ++
    "rail_plane_normal, x\nrail_plane_offsets, 0\nrail_segment_type, line\n"

theorem exists_farPoint {coordinate : String} {kept : Bool}
    (h : (coordinate, kept) ∈ [("1e306", true), ("1e308", false)]) :
    ∃ analysis action edge rails sketch,
      ofSource "t.txt" (farPoint coordinate) .mm = .ok analysis ∧ action ∈ analysis.actions ∧
      edge ∈ action.coRails ⟨"out"⟩ ∧ rails ∈ analysis.crossRails ∧
      sketch ∈ rails.1.sketches analysis.sketches ⟨"out"⟩ rails.2 ∧
      ∀ offset ∈ rails.1.offsets, ∀ rail ∈ rails.1.railNames,
        decide (∀ point ∈ rails.1.points analysis.sketches rail offset,
          rails.1.IsRoundable point) = kept := by
  have hfacts : ∀ entry ∈ [("1e306", true), ("1e308", false)],
      ((ofSource "t.txt" (farPoint entry.1) .mm).toOption.any fun analysis =>
        (analysis.actions.any fun action => !(action.coRails ⟨"out"⟩).isEmpty) &&
          analysis.crossRails.any fun rails =>
            !(rails.1.sketches analysis.sketches ⟨"out"⟩ rails.2).isEmpty &&
              rails.1.offsets.all fun offset => rails.1.railNames.all fun rail =>
                decide (∀ point ∈ rails.1.points analysis.sketches rail offset,
                  rails.1.IsRoundable point) == entry.2) = true := by
    decide +kernel
  obtain ⟨analysis, hread, hfar⟩ := exists_of_toOption_any (hfacts _ h)
  simp only [Bool.and_eq_true, List.any_eq_true, Bool.not_eq_true',
    List.isEmpty_eq_false_iff_exists_mem, List.all_eq_true, beq_iff_eq] at hfar
  obtain ⟨⟨action, haction, edge, hedge⟩, rails, hrails, ⟨sketch, hsketch⟩, hkept⟩ := hfar
  exact ⟨analysis, action, edge, rails, sketch, hread, haction, hedge, hrails, hsketch, hkept⟩

theorem exists_isPlain_files : ∃ analysis action edge axis plane segment rails sketch offset rail,
    ofSource "t.txt" (farPoint "1e306") .mm = .ok analysis ∧ action ∈ analysis.actions ∧
      action.file = File.ofCells action.cells ∧ File.IsPlain action.cells ∧
      edge ∈ action.coRails ⟨"out"⟩ ∧
      edge.text = File.ofCells (RailSketch.front action.unit axis plane ++ Record.cells segment) ∧
      File.IsPlain (RailSketch.front action.unit axis plane ++ segment.cells) ∧
      rails ∈ analysis.crossRails ∧
      sketch ∈ rails.1.sketches analysis.sketches ⟨"out"⟩ rails.2 ∧
      sketch.text = File.ofCells (rails.1.cells rails.2 offset
        (rails.1.points analysis.sketches rail offset)) ∧
      File.IsPlain (rails.1.cells rails.2 offset
        (rails.1.points analysis.sketches rail offset)) := by
  obtain ⟨analysis, action, edge, rails, sketch, hread, haction, hedge, hrails, hsketch, hkept⟩ :=
    exists_farPoint (List.mem_cons_self (a := ("1e306", true)))
  obtain ⟨hactions, hcross⟩ := isPlain_files hread ⟨"out"⟩
  obtain ⟨⟨hfile, hplain⟩, hedges⟩ := hactions action haction
  obtain ⟨axis, plane, segment, -, -, htext, hrows⟩ := hedges edge hedge
  obtain ⟨offset, hoffset, rail, hrail, hrailText, hiff⟩ := hcross rails hrails sketch hsketch
  exact ⟨analysis, action, edge, axis, plane, segment, rails, sketch, offset, rail, hread, haction,
    hfile, hplain, hedge, htext, hrows, hrails, hsketch, hrailText,
    hiff.mpr (of_decide_eq_true (hkept offset hoffset rail hrail))⟩

/-- Not every number in the sketch of a rail is written as a plain decimal. -/
theorem exists_sketch_not_isPlain : ∃ analysis rails sketch offset rail,
    ofSource "t.txt" (farPoint "1e308") .mm = .ok analysis ∧ rails ∈ analysis.crossRails ∧
      sketch ∈ rails.1.sketches analysis.sketches ⟨"out"⟩ rails.2 ∧
      sketch.text = File.ofCells (rails.1.cells rails.2 offset
        (rails.1.points analysis.sketches rail offset)) ∧
      ¬File.IsPlain (rails.1.cells rails.2 offset
        (rails.1.points analysis.sketches rail offset)) := by
  obtain ⟨analysis, _, _, rails, sketch, hread, -, -, hrails, hsketch, hkept⟩ :=
    exists_farPoint (List.mem_cons_of_mem _ (List.mem_singleton_self ("1e308", false)))
  obtain ⟨_, _, _, _, -, -, -, -, hblock⟩ := exists_block_of_mem_crossRails hread hrails
  obtain ⟨offset, hoffset, rail, hrail, -, htext⟩ :=
    CrossRails.exists_cells_of_mem_sketches hblock hsketch
  refine ⟨analysis, rails, sketch, offset, rail, hread, hrails, hsketch, htext, ?_⟩
  rw [CrossRails.isPlain_cells_iff (CrossRails.isFinite_of_mem_offsets hblock hoffset)]
  exact of_decide_eq_false (hkept offset hoffset rail hrail)

end Analysis

end CadTimeline
