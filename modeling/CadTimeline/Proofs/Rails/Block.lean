import CadTimeline.Proofs.Action.Cells
import CadTimeline.Proofs.Rails.Definition

/-!
# The block of a cross rail

The rows that the sketches of the rails in a block are written from.
-/

namespace CadTimeline

namespace CrossRails

/-- The type of the segment is one of those that sketches have. -/
theorem segmentWord_mem {scope : Scope} {block : Block} {rails : CrossRails}
    (h : ofBlock scope block = .ok rails) : rails.segmentWord ∈ Schema.segmentWords := by
  obtain ⟨-, -, -, records, -, hdefined⟩ := ofBlock_eq_ok.mp h
  exact Schema.exists_segment_iff.mp hdefined.segment

/-- Each sketch is written from the points of one rail in one plane. -/
theorem exists_cells_of_mem_sketches {scope : Scope} {block : Block} {rails : CrossRails}
    (h : ofBlock scope block = .ok rails) {profiles : List Action} {root : Path}
    {unit : LengthUnit} {sketch : RailSketch} (hsketch : sketch ∈ rails.sketches profiles root unit) :
    ∃ offset ∈ rails.offsets, ∃ rail ∈ rails.railNames,
      2 ≤ (rails.points profiles rail offset).length ∧
      sketch.text = File.ofCells (rails.cells unit offset (rails.points profiles rail offset)) := by
  have hbare : ∀ word ∈ Schema.segmentWords, Text.quoted word = word := by decide +kernel
  obtain ⟨offset, hoffset, hmem⟩ := List.mem_flatMap.mp hsketch
  obtain ⟨rail, hrail, hsome⟩ := List.mem_filterMap.mp hmem
  exact ⟨offset, hoffset, rail, hrail, sketch?_eq_some (hbare _ (segmentWord_mem h)) hsome⟩

end CrossRails

end CadTimeline
