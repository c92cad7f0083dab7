import CadTimeline.Proofs.Rails.CoRails
import CadTimeline.Proofs.Rails.Definition

/-!
# Rails are made from all there is

Rails are made from the planes and the rows of sketches and from the lines of definitions. Each of
these is looked up where it may be missing. In what is read from a source none ever is: a sketch
has its plane, a row starts with two coordinates, and a definition has all of its lines.
-/

namespace CadTimeline

/-- Blocks have a schema when they become a file or define cross rails. -/
theorem Keyword.isSome_schema?_iff {keyword : Keyword} :
    keyword.schema?.isSome = true ↔ keyword.isAction = true ∨ keyword = .crossRails := by
  cases keyword with
  | parameters => decide
  | units => decide
  | echo => decide
  | crossRails => decide
  | action kind =>
      rw [schema?_action]
      exact iff_of_true rfl (.inl rfl)

/-- The points that the rows of a segment start with. -/
def Record.coordinates (segment : Record) : List (Float × Float) :=
  segment.rows.filterMap CrossRails.coordinates?

theorem IsPointRow.exists_coordinates {row : List Value} (h : IsPointRow row) :
    ∃ point, CrossRails.coordinates? row = some point ∧ point.1.isFinite = true ∧
      point.2.isFinite = true := by
  obtain ⟨x, y, rest, rfl, hx, hy⟩ := h
  exact ⟨(x, y), rfl, hx, hy⟩

/-- Every row of a segment has its point. -/
theorem Record.IsSegment.map_coordinates {segment : Record} (h : segment.IsSegment) :
    segment.rows.map CrossRails.coordinates? = segment.coordinates.map some ∧
      ∀ point ∈ segment.coordinates, point.1.isFinite = true ∧ point.2.isFinite = true := by
  constructor
  · rw [coordinates, List.map_filterMap_some_eq_filter_map_isSome, eq_comm, List.filter_eq_self]
    rintro _ hmem
    obtain ⟨row, hrow, rfl⟩ := List.mem_map.mp hmem
    obtain ⟨_, hsome, -⟩ := (h.rows row hrow).exists_coordinates
    exact Option.isSome_of_eq_some hsome
  · intro point hpoint
    obtain ⟨row, hrow, hsome⟩ := List.mem_filterMap.mp hpoint
    obtain ⟨_, hother, hfinite⟩ := (h.rows row hrow).exists_coordinates
    cases hsome.symm.trans hother
    exact hfinite

namespace Action

/-- A sketch whose rails are made from its plane, from each of its segments and from each of their
rows. -/
structure IsWhole (action : Action) (axis : Axis) (offset : Float) : Prop where
  records : ∃ plane : Record, plane.IsPlaneOf axis offset ∧ action.records = plane :: action.segments
  plane : action.plane? = some (axis, offset)
  segments : ∀ segment ∈ action.segments, segment.IsSegment
  coordinates : ∀ segment ∈ action.segments,
    segment.rows.map CrossRails.coordinates? = segment.coordinates.map some
  finite : ∀ segment ∈ action.segments, ∀ point ∈ segment.coordinates,
    point.1.isFinite = true ∧ point.2.isFinite = true
  coRails : ∀ root, action.coRails root = action.segments.filterMap fun segment =>
    segment.coRail?.map (action.coRailSketch root axis offset segment)
  points : ∀ (rails : CrossRails) (rail : String) (railOffset : Float),
    rails.profilePoints rail railOffset action =
      if axis = rails.profileNormal then
        (action.segments.filter (·.isOnCrossRail rail)).flatMap fun segment =>
          segment.coordinates.filterMap fun (a, b) =>
            CrossRails.pointInPlane? axis offset rails.railNormal railOffset a b
      else []

theorem FromBlock.exists_isWhole {action : Action} {scope : Scope} {block : Block}
    (h : action.FromBlock scope block) (hkind : action.kind = .sketch) :
    ∃ axis offset, action.IsWhole axis offset := by
  obtain ⟨axis, offset, plane, hplane, hsome, hrecords, hsegments⟩ := h.exists_plane hkind
  refine ⟨axis, offset, ⟨plane, hplane, hrecords⟩, hsome, hsegments,
    fun segment hsegment => (hsegments segment hsegment).map_coordinates.1,
    fun segment hsegment => (hsegments segment hsegment).map_coordinates.2, fun root => ?_,
    fun rails rail railOffset => ?_⟩
  · rw [coRails, hsome]
    rfl
  · rw [CrossRails.profilePoints, hsome]
    dsimp only
    refine if_congr Iff.rfl (List.flatMap_congr fun segment _ => ?_) rfl
    rw [Record.coordinates, List.filterMap_filterMap]
    rfl

end Action

namespace Analysis

variable {file source : String} {unit : LengthUnit} {analysis : Analysis}

/-- Nothing that rails are made from is missing in what is read from a source: blocks have their
schema, sketches are whole, and cross rails are defined by the lines of their block, whatever these
are. No look-up of a schema fails where one is needed. -/
theorem nothing_missing (h : ofSource file source unit = .ok analysis) :
    ∃ blocks, Block.ofSource source = .ok blocks ∧
      (∀ action ∈ analysis.actions, ∃ scope, ∃ block ∈ blocks,
        block.keyword = .action action.kind ∧ block.keyword.schema? = some action.kind.schema ∧
          Body.read action.kind.schema scope block = .ok action.records) ∧
      (∀ action ∈ analysis.sketches, ∃ axis offset, action.IsWhole axis offset) ∧
      (∀ rails ∈ analysis.crossRails, ∃ scope records, ∃ block ∈ blocks,
        block.keyword = .crossRails ∧ block.keyword.schema? = some Schema.crossRails ∧
          Body.read Schema.crossRails scope block = .ok records ∧ rails.1.IsDefinedBy records ∧
            rails.1.profileNormal ≠ rails.1.railNormal) ∧
      (∀ scope block records, Body.read Schema.crossRails scope block = .ok records →
        ∀ folder namePrefix line, ∃ rails : CrossRails, rails.IsDefinedBy records ∧
          CrossRails.ofRecords folder namePrefix line records =
            if rails.profileNormal = rails.railNormal then
              .error (.equalNormals rails.profileNormal.word) else .ok rails) ∧
      (∀ kind, (Keyword.action kind).findSchema = .ok kind.schema) ∧
      Keyword.crossRails.findSchema = .ok Schema.crossRails ∧
      ∀ keyword : Keyword, keyword.schema?.isSome = true ↔
        keyword.isAction = true ∨ keyword = .crossRails := by
  obtain ⟨blocks, -, hblocks, -⟩ := ofSource_eq_ok h
  refine ⟨blocks, hblocks, fun action hmem => ?_, fun action hmem => ?_, fun rails hmem => ?_,
    fun scope block records hread folder namePrefix line => ?_, Keyword.findSchema_action,
    Keyword.findSchema_crossRails, fun _ => Keyword.isSome_schema?_iff⟩
  · obtain ⟨before, block, after, here, kind, hsplit, -, hword, hof⟩ :=
      exists_block_of_mem_actions h hmem
    cases hblocks.symm.trans hsplit
    obtain ⟨rfl, -, -, -, hread⟩ := Action.ofBlock_eq_ok.mp hof
    exact ⟨here.scope, block, List.mem_append_right _ List.mem_cons_self, hword,
      hword ▸ Keyword.schema?_action _, hread⟩
  · obtain ⟨hkind, scope, block, hfrom⟩ := exists_fromBlock_of_mem_sketches h hmem
    exact hfrom.exists_isWhole hkind
  · obtain ⟨before, block, after, here, hsplit, -, hword, -, hof⟩ :=
      exists_block_of_mem_crossRails h hmem
    cases hblocks.symm.trans hsplit
    obtain ⟨-, -, hnormals, records, hread, hdefined⟩ := CrossRails.ofBlock_eq_ok.mp hof
    exact ⟨here.scope, records, block, List.mem_append_right _ List.mem_cons_self, hword,
      congrArg Keyword.schema? hword, hread, hdefined, hnormals⟩
  · obtain ⟨rails, rfl, rfl, rfl, hdefined⟩ :=
      CrossRails.exists_isDefinedBy hread folder namePrefix line
    exact ⟨rails, hdefined, hdefined.ofRecords_eq⟩

/-- A rib with a rail of its own and a rail across, and the definition of the latter. -/
def ribWithRails : String :=
  String.join ["sketch, wing, rib\n", "offset_plane, z, 1 + 1\n", "spline, co_rail, lead\n",
    "0, 0\n4, 1\n", "line, cross_rails, tail\n", "0, 0\n0, 5\n", "cross_rails, rails\n",
    "rail_names, tail\n", "profile_plane_normal, z\n", "rail_plane_normal, x\n",
    "rail_plane_offsets, 0, 2 * 2\n", "rail_segment_type, line\n"]

theorem exists_ribWithRails : ∃ analysis action axis offset rails records,
    ofSource "t.txt" ribWithRails .mm = .ok analysis ∧ analysis.sketches = [action] ∧
      analysis.crossRails.map Prod.fst = [rails] ∧ action.segments.length = 2 ∧
      rails.offsets.length = 2 ∧ action.IsWhole axis offset ∧ rails.IsDefinedBy records := by
  have hread : ((ofSource "t.txt" ribWithRails .mm).toOption.any fun analysis =>
      analysis.sketches.map (·.segments.length) == [2] &&
        analysis.crossRails.map (·.1.offsets.length) == [2]) = true := by
    rw [ribWithRails, ofSource_eq, String.toList_join]
    decide +kernel
  obtain ⟨analysis, hread, hboth⟩ := exists_of_toOption_any hread
  rw [Bool.and_eq_true, beq_iff_eq, beq_iff_eq] at hboth
  obtain ⟨action, hactions, hsegments⟩ := List.map_eq_singleton_iff.mp hboth.1
  obtain ⟨rails, hrails, hoffsets⟩ := List.map_eq_singleton_iff.mp hboth.2
  obtain ⟨_, -, -, hsketches, hcrossRails, -, -⟩ := nothing_missing hread
  obtain ⟨axis, offset, hwhole⟩ := hsketches action (hactions ▸ List.mem_singleton_self action)
  obtain ⟨_, records, _, -, -, -, -, hdefined, -⟩ :=
    hcrossRails rails (hrails ▸ List.mem_singleton_self rails)
  exact ⟨analysis, action, axis, offset, rails.1, records, hread, hactions,
    by rw [hrails, List.map_singleton], hsegments, hoffsets, hwhole, hdefined⟩

end Analysis

end CadTimeline
