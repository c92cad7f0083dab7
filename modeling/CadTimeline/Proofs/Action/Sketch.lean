import CadTimeline.Proofs.Action.ReadBack
import CadTimeline.Proofs.Record.Origin

/-!
# The records of a sketch

A sketch is the line of its plane and then the lines of its segments, with their rows. So its
first record is the plane, and every other record is a segment whose rows start with the two
coordinates of a point.
-/

namespace CadTimeline

open Body

namespace Schema

theorem exists_axis_of_mem_axisWords {word : String} (h : word ∈ axisWords) :
    ∃ axis : Axis, axis.word = word := by
  simp only [axisWords, List.mem_cons, List.not_mem_nil, or_false] at h
  rcases h with rfl | rfl | rfl
  · exact ⟨.x, rfl⟩
  · exact ⟨.y, rfl⟩
  · exact ⟨.z, rfl⟩

theorem index_eq_one : ∀ entry ∈ sketch.slots.zipIdx, entry.2 ≠ 0 → entry.2 = 1 := by
  decide

theorem mem_segments_of_index_ne_zero :
    ∀ entry ∈ sketch.slots.zipIdx, entry.2 ≠ 0 → ∀ kind ∈ entry.1.kinds, kind ∈ segments := by
  decide

/-- A segment has a key word of its own, nothing but tags behind it, and rows of points. -/
theorem segments_shape : ∀ kind ∈ segments,
    kind.fields = .none ∧ kind.keyShown = true ∧ kind.key.headD "" ≠ "offset_plane" ∧
      ∀ rows ∈ kind.rows, ((rows.fields.spec? 0).map FieldSpec.kind = some .number ∧
        (rows.fields.spec? 1).map FieldSpec.kind = some .number) ∧
          2 ≤ rows.fields.bounds.least := by
  decide

end Schema

/-! ## Rows of points -/

/-- The row starts with two coordinates. -/
def IsPointRow (row : List Value) : Prop :=
  ∃ x y rest, row = .number x :: .number y :: rest ∧ x.isFinite = true ∧ y.isFinite = true

theorem FieldSpec.Converted.exists_number {spec : FieldSpec} {scope : Scope} {field : Field}
    {v : Value} (h : spec.Converted scope field v) (hkind : spec.kind = .number) :
    ∃ x, v = .number x ∧ x.isFinite = true := by
  have hfinite := h.isFinite
  cases h with
  | number => exact ⟨_, rfl, hfinite _ rfl⟩
  | integer hother => cases hkind.symm.trans hother
  | text hother => cases hkind.symm.trans hother
  | choice hother => cases hkind.symm.trans hother

/-- Of a line with two fields at least, the first two have values. -/
theorem Fields.Becomes.exists_two {fields : Fields} {scope : Scope} {line : List Field}
    {values : List Value} (h : fields.Becomes scope line values)
    (hwidth : fields.accepts line.length = true) (hleast : 2 ≤ fields.bounds.least) :
    ∃ first second others v w rest, line = first :: second :: others ∧ values = v :: w :: rest ∧
      fields.ConvertedAt scope (first, 0) v ∧ fields.ConvertedAt scope (second, 1) w := by
  rw [Fields.accepts, Bounds.accepts, Bool.and_eq_true, decide_eq_true_eq] at hwidth
  have hlength := hleast.trans hwidth.1
  rcases line with _ | ⟨first, _ | ⟨second, others⟩⟩
  · contradiction
  · contradiction
  · rw [Fields.Becomes, List.zipIdx_cons, List.zipIdx_cons] at h
    obtain ⟨v, _, hfirst, hrest, rfl⟩ := List.forall₂_cons_left_iff.mp h
    obtain ⟨w, rest, hsecond, -, rfl⟩ := List.forall₂_cons_left_iff.mp hrest
    exact ⟨first, second, others, v, w, rest, rfl, rfl, hfirst, hsecond⟩

theorem Fields.Becomes.isPointRow {fields : Fields} {scope : Scope} {line : List Field}
    {values : List Value} (h : fields.Becomes scope line values)
    (hwidth : fields.accepts line.length = true) (hleast : 2 ≤ fields.bounds.least)
    (hfirst : (fields.spec? 0).map FieldSpec.kind = some .number)
    (hsecond : (fields.spec? 1).map FieldSpec.kind = some .number) : IsPointRow values := by
  obtain ⟨_, _, _, v, w, rest, rfl, rfl, ⟨spec, hspec, hv⟩, ⟨other, hother, hw⟩⟩ :=
    h.exists_two hwidth hleast
  rw [hspec] at hfirst
  rw [hother] at hsecond
  obtain ⟨x, rfl, hx⟩ := hv.exists_number (Option.some.inj hfirst)
  obtain ⟨y, rfl, hy⟩ := hw.exists_number (Option.some.inj hsecond)
  exact ⟨x, y, rest, rfl, hx, hy⟩

/-! ## The plane and the segments -/

/-- The record of the plane of a sketch. -/
structure Record.IsPlaneOf (record : Record) (axis : Axis) (offset : Float) : Prop where
  key : record.key = ["offset_plane"]
  values : record.values = [.text axis.word, .number offset]
  rows : record.rows = []
  tags : record.tags = []
  keyShown : record.keyShown = false
  finite : offset.isFinite = true

/-- The record of a segment of a sketch. -/
structure Record.IsSegment (record : Record) : Prop where
  word : Action.isPlane record = false
  values : record.values = []
  rows : ∀ row ∈ record.rows, IsPointRow row
  keyShown : record.keyShown = true

namespace Body

variable {scope : Scope} {part : Section} {record : Record}

theorem Section.Becomes.isSegment (hpart : part.Declared)
    (hkind : part.found.kind ∈ Schema.segments) (h : part.Becomes scope record) :
    record.IsSegment := by
  obtain ⟨hfields, hshown, hword, hrows⟩ := Schema.segments_shape _ hkind
  refine ⟨?_, ?_, ?_, h.keyShown.trans hshown⟩
  · rw [Action.isPlane, Record.word, h.key]
    exact beq_eq_false_iff_ne.mpr hword
  · have hwidth := hpart.width
    have hvalues := h.values
    rw [hfields] at hwidth hvalues
    have hnone : part.own = [] :=
      List.length_eq_zero_iff.mp (Fields.accepts_fixed_iff.mp hwidth)
    rw [hnone, Fields.Becomes, List.zipIdx_nil, List.forall₂_nil_left_iff] at hvalues
    exact hvalues
  · intro row hrow
    obtain ⟨own, hown, line, hline, hbecomes⟩ := h.rows.exists_becomes hrow
    have hdeclared := hpart.rows
    rw [Option.mem_def.mp hown] at hdeclared
    obtain ⟨⟨hfirst, hsecond⟩, hleast⟩ := hrows own hown
    exact hbecomes.isPointRow (hdeclared.2 line hline) hleast hfirst hsecond

theorem Section.Becomes.exists_isPlaneOf (hof : part.Of Schema.sketch) (hpart : part.Declared)
    (hkind : part.found.kind = Schema.planeKind) (h : part.Becomes scope record) :
    ∃ axis offset, record.IsPlaneOf axis offset := by
  have hwidth := hpart.width
  have hvalues := h.values
  have hrows := h.rows
  rw [hkind] at hwidth hvalues hrows
  obtain ⟨_, _, others, v, w, rest, hown, hrecord, ⟨spec, hspec, hv⟩, ⟨other, hother, hw⟩⟩ :=
    hvalues.exists_two hwidth (by decide)
  have hrest : rest = [] := by
    rw [Fields.Becomes] at hvalues
    have hlength := hvalues.length_eq
    rw [List.length_zipIdx, hrecord] at hlength
    have hmost : part.own.length = 2 := Fields.accepts_fixed_iff.mp hwidth
    rw [← List.length_eq_zero_iff]
    simp only [List.length_cons] at hlength
    omega
  cases hspec
  cases hother
  obtain ⟨offset, rfl, hfinite⟩ := hw.exists_number rfl
  cases hv with
  | number hnumber => cases hnumber
  | integer hinteger => cases hinteger
  | text htext => cases htext
  | choice hwords _ hmem =>
      cases hwords
      obtain ⟨axis, rfl⟩ := Schema.exists_axis_of_mem_axisWords hmem
      refine ⟨axis, offset, ⟨?_, hrest ▸ hrecord, hrows, ?_, ?_, hfinite⟩⟩
      · rw [h.key, hkind]
        rfl
      · have htags := h.tags
        rw [hof.untagged (by rw [hkind]; rfl)] at htags
        exact List.forall₂_nil_left_iff.mp htags
      · rw [h.keyShown, hkind]
        rfl

/-! ## The body of a sketch -/

/-- In a list that never decreases and has a single zero, the zero comes first. -/
theorem eq_zero_cons {indices : List Nat} (h : indices.Pairwise (· ≤ ·))
    (hcount : indices.count 0 = 1) : ∃ later, indices = 0 :: later ∧ 0 ∉ later := by
  have hreverse : indices.reverse.Pairwise fun a b => b ≤ a := List.pairwise_reverse.mpr h
  obtain ⟨before, hbefore, hzero⟩ := eq_append_zero hreverse (by rwa [List.count_reverse])
  refine ⟨before.reverse, ?_, fun hmem => hzero (List.mem_reverse.mp hmem)⟩
  rw [← List.reverse_reverse indices, hbefore, List.reverse_append]
  rfl

/-- The parts of a sketch: the plane, then segments. -/
structure IsSketchBody (plane : Section) (parts : List Section) : Prop where
  planeKind : plane.found.kind = Schema.planeKind
  planeIndex : plane.found.index = 0
  kinds : ∀ part ∈ parts, part.found.kind ∈ Schema.segments
  indices : ∀ part ∈ parts, part.found.index = 1

theorem Outline.Declared.exists_isSketchBody {outline : Outline} {body : List Line}
    (hof : outline.Of Schema.sketch body) (h : outline.Declared Schema.sketch) :
    ∃ plane parts, outline = ⟨[], plane :: parts⟩ ∧ IsSketchBody plane parts := by
  have hslot : ∀ part ∈ outline.sections,
      (part.found.slot, part.found.index) ∈ Schema.sketch.slots.zipIdx ∧
        part.found.kind ∈ part.found.slot.kinds := by
    intro part hpart
    obtain ⟨hmem, hfind⟩ := Schema.slot_of_recognise? (hof.sections part hpart).found
    exact ⟨hmem, List.mem_of_find?_eq_some hfind⟩
  have hcount : outline.indices.count 0 = 1 := beq_iff_eq.mp (h.occurs _ Schema.plane_mem)
  obtain ⟨later, hindices, hzero⟩ := eq_zero_cons (h.order rfl) hcount
  obtain ⟨leading, sections⟩ := outline
  have hleading : leading = [] := h.leading
  obtain ⟨plane, parts, rfl, hplane, rfl⟩ := List.map_eq_cons_iff.mp hindices
  rw [List.forall_mem_cons] at hslot
  have hrest : ∀ part ∈ parts, part.found.index ≠ 0 :=
    fun part hpart heq => hzero (heq ▸ List.mem_map_of_mem hpart)
  refine ⟨plane, parts, by rw [hleading], ⟨?_, hplane, fun part hpart => ?_, fun part hpart => ?_⟩⟩
  · exact Schema.eq_planeKind _ hslot.1.1 hplane _ hslot.1.2
  · obtain ⟨hmem, hkind⟩ := hslot.2 part hpart
    exact Schema.mem_segments_of_index_ne_zero _ hmem (hrest part hpart) _ hkind
  · exact Schema.index_eq_one _ (hslot.2 part hpart).1 (hrest part hpart)

/-- What the parts of a sketch become. -/
theorem exists_records_of_sketch {block : Block} {records : List Record}
    (h : read Schema.sketch scope block = .ok records) :
    ∃ plane parts first rest, (Outline.mk [] (plane :: parts)).Of Schema.sketch block.body ∧
      IsSketchBody plane parts ∧ (Outline.mk [] (plane :: parts)).Declared Schema.sketch ∧
      records = first :: rest ∧ plane.Becomes scope first ∧
      List.Forall₂ (Section.Becomes scope) parts rest := by
  have hof := outlineOf_of Schema.sketch block.body
  obtain ⟨hdeclared, front, others, rfl, hfront, hothers⟩ := (read_eq_ok_iff hof).mp h
  obtain ⟨plane, parts, houtline, hbody⟩ := hdeclared.exists_isSketchBody hof
  rw [houtline] at hof hdeclared hfront hothers
  obtain ⟨first, rest, hfirst, hrest, rfl⟩ := List.forall₂_cons_left_iff.mp hothers
  cases hfront with
  | none => exact ⟨plane, parts, first, rest, hof, hbody, hdeclared, rfl, hfirst, hrest⟩

/-- The first record of a sketch is its plane, and the others are its segments. -/
theorem exists_plane_of_sketch {block : Block} {records : List Record}
    (h : read Schema.sketch scope block = .ok records) :
    ∃ axis offset plane rest, records = plane :: rest ∧ plane.IsPlaneOf axis offset ∧
      ∀ record ∈ rest, record.IsSegment := by
  obtain ⟨plane, parts, first, rest, hof, hbody, hdeclared, rfl, hfirst, hrest⟩ :=
    exists_records_of_sketch h
  have hsections := hof.sections
  have hdeclares := hdeclared.sections
  rw [List.forall_mem_cons] at hsections hdeclares
  obtain ⟨axis, offset, hplane⟩ := hfirst.exists_isPlaneOf hsections.1 hdeclares.1 hbody.planeKind
  refine ⟨axis, offset, first, rest, rfl, hplane, fun record hrecord => ?_⟩
  obtain ⟨part, hpart, hbecomes⟩ := exists_of_mem_right_forall₂ hrest hrecord
  exact hbecomes.isSegment (hdeclares.2 part hpart) (hbody.kinds part hpart)

end Body

namespace Action

variable {action : Action} {axis : Axis} {offset : Float} {plane : Record} {rest : List Record}

theorem isPlane_of_isPlaneOf (h : plane.IsPlaneOf axis offset) : isPlane plane = true := by
  rw [isPlane, Record.word, h.key]
  rfl

theorem segments_eq (hrecords : action.records = plane :: rest)
    (hplane : plane.IsPlaneOf axis offset) (hrest : ∀ record ∈ rest, record.IsSegment) :
    action.segments = rest := by
  have hkept : ∀ record ∈ rest, (!isPlane record) = true :=
    fun record hrecord => congrArg (!·) (hrest record hrecord).word
  rw [segments, hrecords, List.filter_cons_of_neg (by simp [isPlane_of_isPlaneOf hplane]),
    List.filter_eq_self.mpr hkept]

theorem plane?_eq (hkind : action.kind = .sketch) (hrecords : action.records = plane :: rest)
    (hplane : plane.IsPlaneOf axis offset) : action.plane? = some (axis, offset) := by
  have hfind : action.records.find? isPlane = some plane := by
    rw [hrecords, List.find?_cons_of_pos (isPlane_of_isPlaneOf hplane)]
  rw [plane?, if_pos hkind, hfind, Option.map_some, hplane.values]
  simp only [Value.toText?, Value.toFloat?, Option.bind_some, Axis.ofWord?_word]
  rfl

/-- A sketch has a plane, and its records are that of the plane and its segments. -/
theorem FromBlock.exists_plane {scope : Scope} {block : Block} (h : action.FromBlock scope block)
    (hkind : action.kind = .sketch) :
    ∃ axis offset plane, plane.IsPlaneOf axis offset ∧ action.plane? = some (axis, offset) ∧
      action.records = plane :: action.segments ∧
      ∀ segment ∈ action.segments, segment.IsSegment := by
  have hread := h.read
  rw [hkind] at hread
  obtain ⟨axis, offset, plane, rest, hrecords, hplane, hrest⟩ := exists_plane_of_sketch hread
  have hsegments := segments_eq hrecords hplane hrest
  refine ⟨axis, offset, plane, hplane, plane?_eq hkind hrecords hplane, ?_, ?_⟩
  · rw [hsegments, hrecords]
  · rw [hsegments]
    exact hrest

end Action

theorem Analysis.exists_fromBlock_of_mem_sketches {file source : String} {unit : LengthUnit}
    {analysis : Analysis} {action : Action} (h : ofSource file source unit = .ok analysis)
    (hmem : action ∈ analysis.sketches) :
    action.kind = .sketch ∧ ∃ scope block, action.FromBlock scope block := by
  rw [sketches, List.mem_filter, decide_eq_true_eq] at hmem
  exact ⟨hmem.2, exists_fromBlock h hmem.1⟩

end CadTimeline
