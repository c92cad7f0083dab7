import CadTimeline.Proofs.Decimal.Finite
import CadTimeline.Proofs.Rails.Block
import CadTimeline.Proofs.Timeline.RowLines
import CadTimeline.Proofs.Timeline.Written

/-!
# The segment of a cross rail

The sketch of a cross rail holds one segment, of the type that the block names, with a row of two
coordinates for every point. The block is read without a look at what the type asks of its rows,
so the segment is as sketches have it for some types only.
-/

namespace CadTimeline

open CadTimeline.Field

/-! ## Lines of a sketch -/

theorem isSourceLine_ofText {texts : List String} (hne : texts ≠ [])
    (hsingle : ∀ text ∈ texts, '\n' ∉ text.toList) (hmark : ¬IsMarkedRow texts) :
    IsSourceLine (texts.map ofText) where
  ne_nil := fun hnil => hne (List.map_eq_nil_iff.mp hnil)
  writable := isWritable_of_mem_ofText
  single := List.forall_mem_map.mpr hsingle
  unmarked := by
    obtain ⟨text, rest, rfl⟩ := List.exists_cons_of_ne_nil hne
    rintro f ⟨⟩ hbare hhead
    exact hmark ⟨hhead, hbare⟩

/-- A file of rows that can be lines has these lines. -/
theorem Line.ofSource_ofCells {rows : List (List Value)}
    (h : ∀ row ∈ rows, IsSourceLine ((row.map Value.display).map ofText)) :
    Line.ofSource (File.ofCells rows).toList =
      (numbered 1 (rows.map fun row => (row.map Value.display).map ofText)).map .ok := by
  have hsource : (File.ofCells rows).toList =
      sourceText (rows.map fun row => (row.map Value.display).map ofText) := by
    rw [File.toList_ofCells, fileText, sourceText, List.flatMap_map, List.flatMap_map]
    simp only [rowText_eq]
  rw [hsource, Line.ofSource_sourceText (List.forall_mem_map.mpr h)]

/-- A key word or a number. -/
def IsBareWord (text : String) : Prop :=
  ∀ c ∈ text.toList, IsNumeric c ∨ c = '_'

theorem isBareWord_of_all (words : List String) {word : String}
    (h : words.all (fun word => word.toList.all fun c => c.isAlphanum || c == '_') = true)
    (hword : word ∈ words) : IsBareWord word := by
  intro c hc
  have hclass := List.all_eq_true.mp (List.all_eq_true.mp h word hword) c hc
  rw [Bool.or_eq_true, beq_iff_eq] at hclass
  exact hclass.imp_left .inl

theorem isBareWord_plain (x : Float) : IsBareWord (Number.plain x) :=
  fun _ hc => .inl (Number.isNumeric_of_mem_plain hc)

/-- Words and numbers make a line. -/
theorem isSourceLine_of_bareWords {texts : List String} (hne : texts ≠ [])
    (h : ∀ text ∈ texts, IsBareWord text) : IsSourceLine (texts.map ofText) := by
  refine isSourceLine_ofText hne (fun text htext hmem => ?_) ?_
  · rcases h text htext '\n' hmem with (hnumeric | hnumeric | hnumeric) | hnumeric <;> contradiction
  · obtain ⟨text, rest, rfl⟩ := List.exists_cons_of_ne_nil hne
    intro hmark
    have hmem := List.mem_of_mem_head? hmark.1
    rcases h text List.mem_cons_self _ hmem with (hnumeric | hnumeric | hnumeric) | hnumeric <;>
      contradiction

/-! ## Segments -/

namespace Schema

/-- The lines are one segment of this type, with as many rows as sketches have it with, each as
wide as it may be. -/
def IsSegment (word : String) : List Line → Prop
  | [] => False
  | heading :: rows => ∃ found, sketch.recognise? heading = some found ∧
      found.kind.key = [word] ∧ (∀ row ∈ rows, sketch.recognise? row = none) ∧
      Body.RowsDeclared found.kind.rows rows

/-- Some types of segment are content with any number of rows of two coordinates, some with
three, and some with none. -/
theorem exists_kind_of_segmentWord {word : String} (h : word ∈ segmentWords) (number : Nat) :
    ∃ found rows, sketch.recognise? ⟨number, [ofText word]⟩ = some found ∧
      found.kind.key = [word] ∧ found.kind.rows = some rows ∧
      ∀ count, 2 ≤ count →
        (rows.count.accepts count = true ∧ rows.fields.accepts 2 = true ↔
          word ∈ ["spline", "line", "point"] ∨ word ∈ ["arc", "ellipse"] ∧ count = 3) := by
  simp only [segmentWords, List.mem_cons, List.not_mem_nil, or_false] at h
  rcases h with rfl | rfl | rfl | rfl | rfl | rfl | rfl | rfl
  all_goals
    refine ⟨_, _, rfl, rfl, rfl, fun count hcount => ?_⟩
    simp [Bounds.accepts, Fields.accepts, Fields.bounds, Fields.fixed, Fields.upTo, planarPoint]
      <;> omega

/-- No key of a sketch is a number. -/
theorem not_opens_numbers (x : Float) (rest : List String) :
    sketch.opens (Number.plain x :: rest) = false := by
  -- A key is one word, with a character that is in no plain decimal.
  have hkeys : ∀ kind ∈ sketch.kinds, kind.key.length = 1 ∧ ∀ word ∈ kind.key,
      word ∉ ["NaN", "inf", "-inf"] ∧
        word.toList.any (fun c => !(c.isDigit || c == '.' || c == '-')) = true := by
    decide
  rw [opens, List.any_eq_false]
  intro kind hkind hstarts
  obtain ⟨hone, hwords⟩ := hkeys kind hkind
  obtain ⟨word, hkey⟩ := List.length_eq_one_iff.mp hone
  obtain ⟨hother, hletter⟩ := hwords word (hkey ▸ List.mem_singleton_self word)
  rw [hkey, List.isPrefixOf_iff_prefix, List.cons_prefix_cons] at hstarts
  cases hfinite : x.isFinite with
  | false =>
      apply hother
      rw [hstarts.1]
      simpa using Number.plain_of_not_finite hfinite
  | true =>
      obtain ⟨c, hc, hclass⟩ := List.any_eq_true.mp hletter
      rw [hstarts.1] at hc
      have hplain := (Number.isPlainDecimal_plain hfinite).mem hc
      simp only [Bool.not_eq_true', Bool.or_eq_false_iff, beq_eq_false_iff_ne, ne_eq] at hclass
      simp only [hclass, Bool.false_eq_true, or_self] at hplain

/-- A row of numbers opens no segment. -/
theorem recognise?_numbers (x : Float) {rest : List String} {line : Line}
    (h : line.fields = (Number.plain x :: rest).map ofText) : sketch.recognise? line = none := by
  have hsome := (ActionKind.schema_isReadable .sketch).isSome_recognise? h
  rw [show ActionKind.sketch.schema = sketch from rfl, not_opens_numbers] at hsome
  exact Option.isNone_iff_eq_none.mp (Option.isSome_eq_false_iff.mp hsome)

/-- A heading and rows of two numbers are a segment, where the type of the segment asks for such
rows and as many. -/
theorem isSegment_iff {word : String} (hword : word ∈ segmentWords) {lines : List Line}
    {rows : List (Float × Float)} (hrows : 2 ≤ rows.length)
    (h : lines.map Line.fields =
      [ofText word] :: rows.map fun row => [Number.plain row.1, Number.plain row.2].map ofText) :
    IsSegment word lines ↔
      word ∈ ["spline", "line", "point"] ∨ word ∈ ["arc", "ellipse"] ∧ rows.length = 3 := by
  obtain ⟨heading, others, rfl, hheading, hothers⟩ := List.map_eq_cons_iff.mp h
  have hlength : others.length = rows.length := by
    rw [← List.length_map Line.fields, hothers, List.length_map]
  -- No row starts a segment of its own, so the heading has all of them.
  have hwide : ∀ row ∈ others, row.fields.length = 2 ∧ sketch.recognise? row = none := by
    intro row hrow
    have hmem : row.fields ∈ others.map Line.fields := List.mem_map_of_mem hrow
    rw [hothers] at hmem
    obtain ⟨pair, -, hpair⟩ := List.mem_map.mp hmem
    exact ⟨by rw [← hpair]; rfl, recognise?_numbers pair.1 hpair.symm⟩
  obtain ⟨found, declared, hfound, hkey, hdeclared, hcount⟩ :=
    exists_kind_of_segmentWord hword heading.number
  have hsame : (⟨heading.number, [ofText word]⟩ : Line) = heading := by
    rw [← hheading]
  rw [hsame] at hfound
  rw [← hcount rows.length hrows, ← hlength]
  constructor
  · rintro ⟨other, hother, -, -, hdeclares⟩
    cases hfound.symm.trans hother
    rw [hdeclared] at hdeclares
    obtain ⟨first, hfirst⟩ := List.exists_mem_of_length_pos (by omega : 0 < others.length)
    exact ⟨hdeclares.1, (hwide first hfirst).1 ▸ hdeclares.2 first hfirst⟩
  · rintro ⟨hmany, hfields⟩
    refine ⟨found, hfound, hkey, fun row hrow => (hwide row hrow).2, ?_⟩
    rw [hdeclared]
    exact ⟨hmany, fun row hrow => (hwide row hrow).1.symm ▸ hfields⟩

end Schema

/-! ## The sketches of a cross rail -/

namespace CrossRails

/-- Everything in the sketch of a rail is a key word or a number. -/
theorem forall_bareWord_of_mem_cells {rails : CrossRails} {unit : LengthUnit} {offset : Float}
    {points : List Point} (hword : rails.segmentWord ∈ Schema.segmentWords)
    {row : List Value} (hrow : row ∈ rails.cells unit offset points) :
    row ≠ [] ∧ ∀ text ∈ row.map Value.display, IsBareWord text := by
  have hsketch : IsBareWord ActionKind.sketch.word :=
    isBareWord_of_all [ActionKind.sketch.word] (by decide) List.mem_cons_self
  have hunit : IsBareWord unit.word :=
    isBareWord_of_all [unit.word] (by cases unit <;> decide) List.mem_cons_self
  have haxis : IsBareWord rails.railNormal.word :=
    isBareWord_of_all [rails.railNormal.word] (by cases rails.railNormal <;> decide)
      List.mem_cons_self
  have hsegment : IsBareWord rails.segmentWord := isBareWord_of_all _ (by decide) hword
  simp only [cells, RailSketch.front, List.mem_append, List.mem_cons, List.not_mem_nil, or_false,
    List.mem_map] at hrow
  rcases hrow with ((rfl | rfl | rfl) | rfl) | ⟨point, -, rfl⟩
  · exact ⟨List.cons_ne_nil _ _, List.forall_mem_singleton.mpr hsketch⟩
  · exact ⟨List.cons_ne_nil _ _, List.forall_mem_singleton.mpr hunit⟩
  · exact ⟨List.cons_ne_nil _ _,
      List.forall_mem_cons.mpr ⟨haxis, List.forall_mem_singleton.mpr (isBareWord_plain _)⟩⟩
  · exact ⟨List.cons_ne_nil _ _, List.forall_mem_singleton.mpr hsegment⟩
  · exact ⟨List.cons_ne_nil _ _, List.forall_mem_cons.mpr
      ⟨isBareWord_plain _, List.forall_mem_singleton.mpr (isBareWord_plain _)⟩⟩

theorem isSourceLine_of_mem_cells {rails : CrossRails} {unit : LengthUnit} {offset : Float}
    {points : List Point} (hword : rails.segmentWord ∈ Schema.segmentWords)
    {row : List Value} (hrow : row ∈ rails.cells unit offset points) :
    IsSourceLine ((row.map Value.display).map ofText) := by
  obtain ⟨hne, hwords⟩ := forall_bareWord_of_mem_cells hword hrow
  exact isSourceLine_of_bareWords (fun hnil => hne (List.map_eq_nil_iff.mp hnil)) hwords

/-- The rows of the sketch of a rail are its lines, and those behind the plane are a segment of
this type where it has rows of two coordinates and as many as the rail has points. -/
theorem exists_lines_ofCells {rails : CrossRails} (unit : LengthUnit) (offset : Float)
    {points : List Point} (hword : rails.segmentWord ∈ Schema.segmentWords)
    (hmany : 2 ≤ points.length) :
    ∃ lines : List Line,
      Line.ofSource (File.ofCells (rails.cells unit offset points)).toList = lines.map .ok ∧
      lines.map Line.fields = (rails.cells unit offset points).map
        (fun row => (row.map Value.display).map ofText) ∧
      (Schema.IsSegment rails.segmentWord (lines.drop 3) ↔
        rails.segmentWord ∈ ["spline", "line", "point"] ∨
          rails.segmentWord ∈ ["arc", "ellipse"] ∧ points.length = 3) := by
  have hfields := map_fields_numbered 1 ((rails.cells unit offset points).map
    fun row => (row.map Value.display).map ofText)
  refine ⟨_, Line.ofSource_ofCells fun row => isSourceLine_of_mem_cells hword, hfields, ?_⟩
  have hlength : (points.map rails.railCoordinates).length = points.length := List.length_map _
  rw [← hlength] at hmany ⊢
  refine Schema.isSegment_iff hword hmany ?_
  rw [List.map_drop, hfields, cells, List.map_append, List.map_append]
  simp only [List.map_map]
  rfl

end CrossRails

namespace Analysis

/-- The text of each sketch of a cross rail has the lines of its plane, the type of the segment
and the points. Those behind the plane are a segment as sketches have them exactly when the type
has rows of two coordinates, and as many as there are points. -/
theorem crossRail_isSegment_iff {file source : String} {unit : LengthUnit} {analysis : Analysis}
    (h : ofSource file source unit = .ok analysis) {rails : CrossRails × LengthUnit}
    (hrails : rails ∈ analysis.crossRails) (root : Path) {sketch : RailSketch}
    (hsketch : sketch ∈ rails.1.sketches analysis.sketches root rails.2) :
    ∃ offset ∈ rails.1.offsets, ∃ rail ∈ rails.1.railNames, ∃ lines : List Line,
      Line.ofSource sketch.text.toList = lines.map .ok ∧
      lines.map Line.fields =
        (rails.1.cells rails.2 offset (rails.1.points analysis.sketches rail offset)).map
          (fun row => (row.map Value.display).map ofText) ∧
      (Schema.IsSegment rails.1.segmentWord (lines.drop 3) ↔
        rails.1.segmentWord ∈ ["spline", "line", "point"] ∨
          rails.1.segmentWord ∈ ["arc", "ellipse"] ∧
            (rails.1.points analysis.sketches rail offset).length = 3) := by
  obtain ⟨_, _, _, _, -, -, -, -, hblock⟩ := exists_block_of_mem_crossRails h hrails
  obtain ⟨offset, hoffset, rail, hrail, hmany, htext⟩ :=
    CrossRails.exists_cells_of_mem_sketches hblock hsketch
  refine ⟨offset, hoffset, rail, hrail, ?_⟩
  rw [htext]
  exact CrossRails.exists_lines_ofCells rails.2 offset (CrossRails.segmentWord_mem hblock) hmany

/-- A rail through the three points of a line, with a segment of this type. -/
def threePoints (word : String) : String :=
  "sketch, s, a\noffset_plane, z, 0\nline, cross_rails, r\n0, 0\n0, 5\n0, 10\n" ++
    "cross_rails, rails\nrail_names, r\nprofile_plane_normal, z\nrail_plane_normal, x\n" ++
    "rail_plane_offsets, 0\nrail_segment_type, " ++ word ++ "\n"

theorem exists_sketch_threePoints (word : String) (h : word ∈ ["arc", "circle"]) :
    ∃ analysis rails sketch, ofSource "t.txt" (threePoints word) .mm = .ok analysis ∧
      rails ∈ analysis.crossRails ∧ sketch ∈ rails.1.sketches analysis.sketches ⟨"out"⟩ rails.2 ∧
      rails.1.segmentWord = word ∧ ∀ offset ∈ rails.1.offsets, ∀ rail ∈ rails.1.railNames,
        (rails.1.points analysis.sketches rail offset).length = 3 := by
  have hrail : ∀ word ∈ ["arc", "circle"],
      ((ofSource "t.txt" (threePoints word) .mm).toOption.any fun analysis =>
        analysis.crossRails.any fun rails =>
          !(rails.1.sketches analysis.sketches ⟨"out"⟩ rails.2).isEmpty &&
            (rails.1.segmentWord == word && rails.1.offsets.all fun offset =>
              rails.1.railNames.all fun rail =>
                (rails.1.points analysis.sketches rail offset).length == 3)) = true := by
    decide +kernel
  obtain ⟨analysis, hread, hany⟩ := exists_of_toOption_any (hrail word h)
  obtain ⟨rails, hrails, hall⟩ := List.any_eq_true.mp hany
  simp only [Bool.and_eq_true, Bool.not_eq_true', List.isEmpty_eq_false_iff_exists_mem,
    beq_iff_eq, List.all_eq_true] at hall
  obtain ⟨⟨sketch, hsketch⟩, hword, hcount⟩ := hall
  exact ⟨analysis, rails, sketch, hread, hrails, hsketch, hword, hcount⟩

theorem exists_isSegment_arc : ∃ analysis rails sketch, ∃ lines : List Line,
    ofSource "t.txt" (threePoints "arc") .mm = .ok analysis ∧ rails ∈ analysis.crossRails ∧
      sketch ∈ rails.1.sketches analysis.sketches ⟨"out"⟩ rails.2 ∧
      Line.ofSource sketch.text.toList = lines.map .ok ∧ Schema.IsSegment "arc" (lines.drop 3) := by
  obtain ⟨analysis, rails, sketch, hread, hrails, hsketch, hword, hcount⟩ :=
    exists_sketch_threePoints "arc" (by decide)
  obtain ⟨offset, hoffset, rail, hrail, lines, hlines, -, hsegment⟩ :=
    crossRail_isSegment_iff hread hrails ⟨"out"⟩ hsketch
  rw [hword] at hsegment
  exact ⟨analysis, rails, sketch, lines, hread, hrails, hsketch, hlines,
    hsegment.mpr (.inr ⟨by decide, hcount offset hoffset rail hrail⟩)⟩

/-- Not every rail has a segment as sketches have it. -/
theorem exists_not_isSegment_circle : ∃ analysis rails sketch, ∃ lines : List Line,
    ofSource "t.txt" (threePoints "circle") .mm = .ok analysis ∧ rails ∈ analysis.crossRails ∧
      sketch ∈ rails.1.sketches analysis.sketches ⟨"out"⟩ rails.2 ∧
      Line.ofSource sketch.text.toList = lines.map .ok ∧
      ¬Schema.IsSegment rails.1.segmentWord (lines.drop 3) := by
  obtain ⟨analysis, rails, sketch, hread, hrails, hsketch, hword, -⟩ :=
    exists_sketch_threePoints "circle" (by decide)
  obtain ⟨_, _, _, _, -, -, -, -, hblock⟩ := exists_block_of_mem_crossRails hread hrails
  obtain ⟨offset, -, _, -, hmany, htext⟩ :=
    CrossRails.exists_cells_of_mem_sketches hblock hsketch
  obtain ⟨lines, hlines, -, hsegment⟩ :=
    CrossRails.exists_lines_ofCells rails.2 offset (CrossRails.segmentWord_mem hblock) hmany
  refine ⟨analysis, rails, sketch, lines, hread, hrails, hsketch, htext ▸ hlines, ?_⟩
  rw [hsegment, hword]
  rintro (hmem | ⟨hmem, -⟩)
  · exact absurd hmem (by decide)
  · exact absurd hmem (by decide)

end Analysis

end CadTimeline
