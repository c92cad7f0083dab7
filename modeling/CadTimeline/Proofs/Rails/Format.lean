import CadTimeline.Proofs.Action.Sketch
import CadTimeline.Proofs.Rails.Segment

/-!
# The format of sketches

The file of a sketch is the preamble of rail sketches and then the segments. So a co rail is the
file of the sketch that has its segment only, and such a file is always read back: no row of a
segment can be taken for a key, as it starts with a number.
-/

namespace CadTimeline

open Body CadTimeline.Field

theorem File.records_eq (records : List Record) :
    File.records records = File.ofCells (records.flatMap Record.cells) := by
  induction records with
  | nil => rfl
  | cons record rest ih =>
      have hcons : File.records (record :: rest) = File.record record ++ File.records rest := by
        apply String.toList_inj.mp
        simp [File.records, String.toList_join]
      rw [hcons, ih, Record.file_eq, List.flatMap_cons, File.ofCells_append]

theorem IsPointRow.keepsRow {row : List Value} (h : IsPointRow row) :
    Schema.sketch.opens (row.map Value.display) = false ∧ ¬IsMarkedRow (row.map Value.display) := by
  obtain ⟨x, y, rest, rfl, -⟩ := h
  refine ⟨Schema.not_opens_numbers x _, fun hmark => ?_⟩
  have hnumeric := Number.isNumeric_of_mem_plain (List.mem_of_mem_head? hmark.1)
  rcases hnumeric with hdigit | hdigit | hdigit <;> contradiction

namespace Action

variable {action : Action} {axis : Axis} {offset : Float} {plane segment : Record}

/-! ## The file of a sketch -/

theorem front_sketch (hkind : action.kind = .sketch) :
    action.front = [[ActionKind.sketch.word], [action.unit.word]] := by
  rw [front, hkind]
  rfl

theorem cells_plane (h : plane.IsPlaneOf axis offset) :
    plane.cells = [[.text axis.word, .number offset]] := by
  have hhead : plane.headCells = [.text axis.word, .number offset] := by
    rw [Record.headCells, h.keyShown, h.values]
    rfl
  rw [Record.cells, hhead, h.rows]
  rfl

/-- The file of a sketch is the preamble and the segments. -/
theorem file_eq_preamble {segments : List Record} (hkind : action.kind = .sketch)
    (hrecords : action.records = plane :: segments) (hplane : plane.IsPlaneOf axis offset) :
    action.file = RailSketch.preamble action.unit axis offset ++ File.records segments := by
  have hcells : action.cells =
      RailSketch.front action.unit axis offset ++ segments.flatMap Record.cells := by
    rw [cells, front_sketch hkind, hrecords, List.flatMap_cons, cells_plane hplane]
    rfl
  rw [file_eq, hcells, File.ofCells_append, ← RailSketch.preamble_eq, ← File.records_eq]

/-! ## One segment of a sketch -/

/-- The sketch with this segment only. -/
def only (action : Action) (segment : Record) : Action :=
  { action with records := action.records.filter isPlane ++ [segment] }

theorem records_only (hrecords : action.records = plane :: action.segments)
    (hplane : plane.IsPlaneOf axis offset) :
    (action.only segment).records = [plane, segment] := by
  have hnone : action.segments.filter isPlane = [] := by
    refine List.filter_eq_nil_iff.mpr fun record hrecord => ?_
    simpa using (List.mem_filter.mp hrecord).2
  rw [only, hrecords, List.filter_cons_of_pos (isPlane_of_isPlaneOf hplane), hnone]
  rfl

theorem file_only (hkind : action.kind = .sketch)
    (hrecords : action.records = plane :: action.segments) (hplane : plane.IsPlaneOf axis offset) :
    (action.only segment).file =
      RailSketch.preamble action.unit axis offset ++ File.record segment := by
  have hone : File.records [segment] = File.record segment := by
    apply String.toList_inj.mp
    simp [File.records]
  have hkind' : (action.only segment).kind = .sketch := hkind
  have hunit : (action.only segment).unit = action.unit := rfl
  rw [file_eq_preamble hkind' (records_only hrecords hplane) hplane, hunit, hone]

/-- The co rails are the files of the sketch with one of the tagged segments each. -/
theorem map_text_coRails (hkind : action.kind = .sketch)
    (hplane? : action.plane? = some (axis, offset))
    (hrecords : action.records = plane :: action.segments) (hplane : plane.IsPlaneOf axis offset)
    (root : Path) :
    (action.coRails root).map RailSketch.text =
      (action.segments.filter fun segment => segment.coRail?.isSome).map fun segment =>
        (action.only segment).file := by
  simp only [file_only hkind hrecords hplane]
  rw [coRails, hplane?]
  dsimp only
  induction action.segments with
  | nil => rfl
  | cons segment segments ih =>
      cases hrail : segment.coRail? with
      | none => simpa [hrail] using ih
      | some rail => simpa [hrail] using ih

/-! ## Reading a segment back -/

/-- No row of a sketch is taken for anything else. -/
theorem keepsRows_of_sketch (hkind : action.kind = .sketch)
    (h : ∀ record ∈ action.records, ∀ row ∈ record.rows, IsPointRow row) : action.KeepsRows := by
  intro record hrecord texts htexts
  obtain ⟨row, hrow, rfl⟩ := List.mem_map.mp htexts
  rw [hkind]
  exact (h record hrecord row hrow).keepsRow

end Action

/-- The body of a sketch with one of its segments only is a sketch, of the same plane. -/
theorem Body.exists_body_only {scope : Scope} {block : Block} {records : List Record}
    (h : read Schema.sketch scope block = .ok records) :
    ∃ plane rest, records = plane :: rest ∧ ∀ segment ∈ rest, ∃ body ⊆ block.body,
      read Schema.sketch scope { block with body } = .ok [plane, segment] := by
  obtain ⟨plane, parts, first, rest, hof, hbody, hdeclared, rfl, hfirst, hrest⟩ :=
    exists_records_of_sketch h
  refine ⟨first, rest, rfl, fun segment hsegment => ?_⟩
  obtain ⟨part, hpart, hbecomes⟩ := exists_of_mem_right_forall₂ hrest hsegment
  have hsections := hof.sections
  have hdeclares := hdeclared.sections
  rw [List.forall_mem_cons] at hsections hdeclares
  have hplane : plane.rows = [] := by
    have hrows := hdeclares.1.rows
    rw [hbody.planeKind] at hrows
    exact hrows
  have houtline : (Outline.mk [] [plane, part]).Of Schema.sketch
      (plane.line :: part.line :: part.rows) := by
    refine ⟨?_, List.forall_mem_nil _, List.forall_mem_cons.mpr
      ⟨hsections.1, List.forall_mem_singleton.mpr (hsections.2 part hpart)⟩⟩
    simp [Outline.lines, hplane]
  have hindices : (Outline.mk [] [plane, part]).indices = [0, 1] := by
    simp [Outline.indices, hbody.planeIndex, hbody.indices part hpart]
  have honly : (Outline.mk [] [plane, part]).Declared Schema.sketch := by
    refine ⟨rfl, List.forall_mem_cons.mpr
      ⟨hdeclares.1, List.forall_mem_singleton.mpr (hdeclares.2 part hpart)⟩, ?_, fun _ => ?_⟩
    · rw [hindices]
      decide
    · rw [hindices]
      decide
  refine ⟨plane.line :: part.line :: part.rows, ?_, (read_eq_ok_iff houtline).mpr
    ⟨honly, [], [first, segment], rfl, .none, .cons hfirst (.cons hbecomes .nil)⟩⟩
  rw [← hof.lines, Outline.lines, List.nil_append, List.flatMap_cons]
  refine List.cons_subset.mpr ⟨List.mem_cons_self, fun line hline => ?_⟩
  exact List.mem_append_right _ (List.mem_flatMap.mpr ⟨part, hpart, hline⟩)

namespace Action.FromBlock

variable {action : Action} {scope : Scope} {block : Block}

theorem exists_only (h : action.FromBlock scope block) (hkind : action.kind = .sketch)
    {segment : Record} (hsegment : segment ∈ action.segments) :
    ∃ other, (action.only segment).FromBlock scope other := by
  have hread := h.read
  rw [hkind] at hread
  obtain ⟨axis, offset, plane, hplane, -, hrecords, -⟩ := h.exists_plane hkind
  obtain ⟨first, rest, hfirst, hbody⟩ := exists_body_only hread
  obtain ⟨rfl, rfl⟩ := List.cons.inj (hrecords.symm.trans hfirst)
  obtain ⟨body, hsubset, hone⟩ := hbody segment hsegment
  obtain ⟨-, -, hline, hheader, -⟩ := ofBlock_eq_ok.mp h.action
  refine ⟨{ block with body }, h.finite, ofBlock_eq_ok.mpr ⟨rfl, rfl, hline, hheader, ?_⟩, h.header,
    fun line hmem => h.body line (hsubset hmem)⟩
  rw [records_only hrecords hplane]
  have hschema : (action.only segment).kind.schema = Schema.sketch := congrArg _ hkind
  rw [hschema]
  exact hone

end Action.FromBlock

namespace Analysis

variable {file source : String} {unit : LengthUnit} {analysis : Analysis} {action : Action}

/-- The file of a sketch is the preamble of its plane and then its segments. Each of its co rails
is the file of the sketch with the tagged segment only, and any such file is read back as the
plane and the segment. -/
theorem sketch_format (h : ofSource file source unit = .ok analysis)
    (hmem : action ∈ analysis.sketches) (root : Path) :
    ∃ axis offset plane, plane.IsPlaneOf axis offset ∧ action.plane? = some (axis, offset) ∧
      action.records = plane :: action.segments ∧
      action.file =
        RailSketch.preamble action.unit axis offset ++ File.records action.segments ∧
      (action.coRails root).map RailSketch.text =
        (action.segments.filter fun segment => segment.coRail?.isSome).map
          (fun segment => (action.only segment).file) ∧
      ∀ segment ∈ action.segments, ∃ later, (action.only segment).readBack = .ok later ∧
        List.Forall₂ Record.Agrees [plane, segment] later := by
  obtain ⟨hkind, scope, block, hfrom⟩ := exists_fromBlock_of_mem_sketches h hmem
  obtain ⟨axis, offset, plane, hplane, hplane?, hrecords, hsegments⟩ := hfrom.exists_plane hkind
  refine ⟨axis, offset, plane, hplane, hplane?, hrecords,
    Action.file_eq_preamble hkind hrecords hplane,
    Action.map_text_coRails hkind hplane? hrecords hplane root, fun segment hsegment => ?_⟩
  obtain ⟨other, honly⟩ := hfrom.exists_only hkind hsegment
  rw [← Action.records_only hrecords hplane]
  refine honly.readBack_iff.mpr (Action.keepsRows_of_sketch hkind ?_)
  rw [Action.records_only hrecords hplane]
  refine List.forall_mem_cons.mpr
    ⟨?_, List.forall_mem_singleton.mpr (hsegments segment hsegment).rows⟩
  rw [hplane.rows]
  exact List.forall_mem_nil _

/-- A sketch with two segments, of which one is a rail. -/
def railedSketch : String :=
  "sketch, s, a\noffset_plane, z, 10\nline, co_rail, left\n0, 0\n0, 5\ncircle\n1, 2, 3\n"

theorem exists_sketch_format : ∃ analysis action,
    ofSource "t.txt" railedSketch .mm = .ok analysis ∧ action ∈ analysis.sketches ∧
      ∃ axis offset plane, plane.IsPlaneOf axis offset ∧ action.plane? = some (axis, offset) ∧
        action.records = plane :: action.segments ∧ action.segments.length = 2 ∧
        (action.coRails ⟨"out"⟩).map RailSketch.text =
          (action.segments.filter fun segment => segment.coRail?.isSome).map
            (fun segment => (action.only segment).file) ∧
        ∀ segment ∈ action.segments, ∃ later, (action.only segment).readBack = .ok later ∧
          List.Forall₂ Record.Agrees [plane, segment] later := by
  have hsketch : ((ofSource "t.txt" railedSketch .mm).toOption.any fun analysis =>
      analysis.sketches.any fun action => action.segments.length == 2) = true := by
    decide +kernel
  obtain ⟨analysis, hread, hany⟩ := exists_of_toOption_any hsketch
  obtain ⟨action, hmem, hlength⟩ := List.any_eq_true.mp hany
  obtain ⟨axis, offset, plane, hplane, hplane?, hrecords, -, htexts, hback⟩ :=
    sketch_format hread hmem ⟨"out"⟩
  exact ⟨analysis, action, hread, hmem, axis, offset, plane, hplane, hplane?, hrecords,
    beq_iff_eq.mp hlength, htexts, hback⟩

end Analysis

end CadTimeline
