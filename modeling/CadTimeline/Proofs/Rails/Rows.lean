import CadTimeline.Proofs.Decimal.Equality
import CadTimeline.Proofs.Rails.Points

/-!
# The data rows of a cross rail

The sketch of a rail has one row for each of its points, at least two, and no two of the points
are the same. A row has two coordinates only, rounded to hundredths, so the rows of two points are
the same text exactly when these coordinates agree.
-/

namespace CadTimeline

/-! ## Rows of two numbers -/

theorem Number.comma_notMem_plain (x : Float) : ',' ∉ (plain x).toList := by
  intro hmem
  rcases isNumeric_of_mem_plain hmem with h | h | h <;> contradiction

theorem File.toList_row_pair (a b : String) :
    (row [a, b]).toList = a.toList ++ ',' :: (' ' :: b.toList ++ ['\n']) := by
  simp [row]

/-- Two texts without a comma are known from their row. -/
theorem File.row_pair_inj {a b c d : String} (ha : ',' ∉ a.toList) (hb : ',' ∉ b.toList) :
    row [a, b] = row [c, d] ↔ a = c ∧ b = d := by
  constructor
  · intro h
    have hchars := congrArg String.toList h
    have hrest : ',' ∉ ' ' :: b.toList ++ ['\n'] := by simpa using hb
    rw [toList_row_pair, toList_row_pair] at hchars
    obtain ⟨hfirst, -, htail⟩ := (List.append_cons_inj_of_notMem ha hrest).mp hchars
    have hsecond := List.append_cancel_right (List.cons.inj htail).2
    exact ⟨String.toList_inj.mp hfirst, String.toList_inj.mp hsecond⟩
  · rintro ⟨rfl, rfl⟩
    rfl

namespace CrossRails

open Number

variable {rails : CrossRails} {profiles : List Action} {root : Path} {unit : LengthUnit}
  {sketch : RailSketch}

theorem pointRow_eq_iff {p q : Point} : rails.pointRow p = rails.pointRow q ↔
    Coincide (rails.railCoordinates p).1 (rails.railCoordinates q).1 ∧
      Coincide (rails.railCoordinates p).2 (rails.railCoordinates q).2 := by
  have hrow : ∀ p, rails.pointRow p = File.row [plain (rails.railCoordinates p).1,
      plain (rails.railCoordinates p).2] := fun _ => rfl
  rw [hrow, hrow, File.row_pair_inj (comma_notMem_plain _) (comma_notMem_plain _), plain_eq_iff,
    plain_eq_iff]

/-- Every sketch of a rail has a row for each of the points of the rail, at least two, and these
are pairwise different. Rows of two points are the same text exactly when the points have the same
two coordinates, rounded to hundredths. -/
theorem sketches_rows (h : sketch ∈ rails.sketches profiles root unit) :
    ∃ offset ∈ rails.offsets, ∃ rail ∈ rails.railNames,
      sketch.text = RailSketch.preamble unit rails.railNormal offset ++
        File.row [rails.segmentWord] ++
          String.join ((rails.points profiles rail offset).map rails.pointRow) ∧
      2 ≤ (rails.points profiles rail offset).length ∧
      ((rails.points profiles rail offset).Pairwise fun p q => p.same q = false) ∧
      ∀ p q, rails.pointRow p = rails.pointRow q ↔
        Coincide (rails.railCoordinates p).1 (rails.railCoordinates q).1 ∧
          Coincide (rails.railCoordinates p).2 (rails.railCoordinates q).2 := by
  obtain ⟨offset, hoffset, hsome⟩ := List.mem_flatMap.mp h
  obtain ⟨rail, hrail, hsketch⟩ := List.mem_filterMap.mp hsome
  obtain ⟨hmany, htext⟩ := text_of_sketch? hsketch
  exact ⟨offset, hoffset, rail, hrail, htext, hmany, pairwise_distinct _,
    fun p q => pointRow_eq_iff⟩

/-- A rib with two points on the rail that are a thousandth apart. -/
def closeRib : Action :=
  rib 0 [(0, 0), (0.001, 0), (100, 0)]

theorem sketches_rows_closeRib : ∃ sketch, sketch ∈ ribRails.sketches [closeRib] ⟨"out"⟩ .mm ∧
    sketch.text = "sketch\nmm\ny, 0\nspline\n0, 0\n0, 0\n100, 0\n" ∧
    ∃ offset ∈ ribRails.offsets, ∃ rail ∈ ribRails.railNames,
      sketch.text = RailSketch.preamble .mm ribRails.railNormal offset ++
        File.row [ribRails.segmentWord] ++
          String.join ((ribRails.points [closeRib] rail offset).map ribRails.pointRow) ∧
      2 ≤ (ribRails.points [closeRib] rail offset).length ∧
      ((ribRails.points [closeRib] rail offset).Pairwise fun p q => p.same q = false) ∧
      ∀ p q, ribRails.pointRow p = ribRails.pointRow q ↔
        Coincide (ribRails.railCoordinates p).1 (ribRails.railCoordinates q).1 ∧
          Coincide (ribRails.railCoordinates p).2 (ribRails.railCoordinates q).2 := by
  have htexts : (ribRails.sketches [closeRib] ⟨"out"⟩ .mm).map RailSketch.text =
      ["sketch\nmm\ny, 0\nspline\n0, 0\n0, 0\n100, 0\n"] := by
    decide +kernel
  obtain ⟨sketch, hsketch, htext⟩ := List.mem_map.mp (htexts ▸ List.mem_singleton_self _)
  exact ⟨sketch, hsketch, htext, sketches_rows hsketch⟩

end CrossRails

namespace Analysis

/-- A rail through two points that are a thousandth apart. -/
def closePoints : String :=
  "sketch, s, a\noffset_plane, z, 0\nline, cross_rails, r\n0, 0\n0, 0.001\n" ++
    "cross_rails, rails\nrail_names, r\nprofile_plane_normal, z\nrail_plane_normal, x\n" ++
    "rail_plane_offsets, 0\nrail_segment_type, line\n"

/-- Different points can have one row. -/
theorem exists_repeated_row : ∃ analysis rails sketch,
    ofSource "t.txt" closePoints .mm = .ok analysis ∧ rails ∈ analysis.crossRails ∧
      sketch ∈ rails.1.sketches analysis.sketches ⟨"out"⟩ rails.2 ∧
      sketch.text = RailSketch.preamble .mm .x 0 ++ File.row ["line"] ++
        String.join [File.row ["0", "0"], File.row ["0", "0"]] := by
  have hfacts : ((ofSource "t.txt" closePoints .mm).toOption.any fun analysis =>
      analysis.crossRails.any fun rails =>
        (rails.1.sketches analysis.sketches ⟨"out"⟩ rails.2).any fun sketch =>
          sketch.text == RailSketch.preamble .mm .x 0 ++ File.row ["line"] ++
            String.join [File.row ["0", "0"], File.row ["0", "0"]]) = true := by
    decide +kernel
  obtain ⟨analysis, hread, hany⟩ := exists_of_toOption_any hfacts
  simp only [List.any_eq_true, beq_iff_eq] at hany
  obtain ⟨rails, hrails, sketch, hsketch, htext⟩ := hany
  exact ⟨analysis, rails, sketch, hread, hrails, hsketch, htext⟩

end Analysis

end CadTimeline
