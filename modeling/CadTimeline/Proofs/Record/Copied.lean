import CadTimeline.Proofs.Record.Acceptance
import CadTimeline.Proofs.Record.Source

/-!
# Records that are read again

A body with the lines of some records has these records: the outline of the lines has the same
slots, and each section of it becomes a record that matches the one that was written.
-/

namespace CadTimeline

open CadTimeline.Field

namespace Body

variable {schema : Schema} {scope : Scope} {part : Section} {record : Record}

/-! ## Rows -/

namespace RowsBecome

variable {own : Option Rows} {lines others : List Line} {values : List (List Value)}

theorem isData (h : RowsBecome scope own lines values) :
    ∀ row ∈ values, ∀ v ∈ row, v.field.IsData := by
  intro row hrow
  obtain ⟨_, -, _, -, hbecomes⟩ := h.exists_becomes hrow
  exact hbecomes.isData

/-- Rows that are written in a timeline are read again. -/
theorem exists_written (hscope : scope.IsFinite) (h : RowsBecome scope own lines values)
    (hothers : others.map Line.fields = values.map fun row => row.map Value.field) :
    ∃ later, RowsBecome Scope.none own others later ∧
      List.Forall₂ (List.Forall₂ Value.Agrees) values later := by
  cases own with
  | none =>
      have hnil : values = [] := h
      rw [hnil]
      exact ⟨[], rfl, .nil⟩
  | some own =>
      have hrows : List.Forall₂ (fun line row => own.fields.Becomes scope line.fields row)
        lines values := h
      clear h
      induction hrows generalizing others with
      | nil =>
          rw [List.map_nil, List.map_eq_nil_iff] at hothers
          exact ⟨[], hothers ▸ .nil, .nil⟩
      | @cons line row lines values hrow _ ih =>
          obtain ⟨other, rest, rfl, hother, hrest⟩ := List.map_eq_cons_iff.mp hothers
          obtain ⟨first, hbecomes, hagree⟩ := hrow.exists_written hscope
          obtain ⟨later, hlater, hagrees⟩ := ih hrest
          have hfields : other.fields = row.map Value.field := hother
          rw [← hfields] at hbecomes
          exact ⟨first :: later, .cons hbecomes hlater, .cons hagree hagrees⟩

/-- Rows of the same values are declared alike. -/
theorem declared (h : RowsBecome scope own lines values) (hdeclared : RowsDeclared own lines)
    (hothers : others.map Line.fields = values.map fun row => row.map Value.field) :
    RowsDeclared own others := by
  cases own with
  | none =>
      have hnil : values = [] := h
      rw [hnil, List.map_nil, List.map_eq_nil_iff] at hothers
      exact hothers
  | some own =>
      have hrows : List.Forall₂ (fun line row => own.fields.Becomes scope line.fields row)
        lines values := h
      obtain ⟨hcount, hwidth⟩ := hdeclared
      have hlength : others.length = lines.length := by
        have heq := congrArg List.length hothers
        rw [List.length_map, List.length_map] at heq
        rw [heq, hrows.length_eq]
      refine ⟨by rw [hlength]; exact hcount, fun other hother => ?_⟩
      have hmem : other.fields ∈ values.map fun row => row.map Value.field :=
        hothers ▸ List.mem_map_of_mem hother
      obtain ⟨row, hrow, hfields⟩ := List.mem_map.mp hmem
      obtain ⟨line, hline, hbecomes⟩ := exists_of_mem_right_forall₂ hrows hrow
      rw [← hfields, List.length_map, hbecomes.length_eq]
      exact hwidth line hline

end RowsBecome

/-! ## Sections -/

theorem recognise?_of_rows {rows : List Line} {values : List (List Value)}
    (hreadable : schema.IsReadable) (hnamed : schema.HasNamedKeys)
    (hdata : ∀ row ∈ values, ∀ v ∈ row, v.field.IsData)
    (hrows : rows.map Line.fields = values.map fun row => row.map Value.field) :
    ∀ row ∈ rows, schema.recognise? row = none := by
  intro row hrow
  apply Schema.recognise?_of_isData hreadable hnamed
  have hmem : row.fields ∈ values.map fun row => row.map Value.field :=
    hrows ▸ List.mem_map_of_mem hrow
  obtain ⟨first, hfirst, hfields⟩ := List.mem_map.mp hmem
  rw [← hfields, List.forall_mem_map]
  exact hdata first hfirst

namespace Section

/-- The section that is written for the record of a section. -/
def copy (part : Section) (record : Record) (line : Line) (rows : List Line) : Section :=
  ⟨part.found, line, record.values.map Value.field, record.tags.map Tag.group, rows⟩

variable {line : Line} {rows : List Line}

theorem Becomes.copy_of (hreadable : schema.IsReadable) (hnamed : schema.HasNamedKeys)
    (hpart : part.Of schema) (h : part.Becomes scope record) (hline : line.fields = record.sourceHead)
    (hrows : rows.map Line.fields = record.sourceRows) : (part.copy record line rows).Of schema where
  found := by
    rw [Record.sourceHead, h.key] at hline
    exact hreadable.recognise?_of_key hpart.found hline
  fields := by
    rw [Record.sourceHead, h.key] at hline
    exact hline
  untagged hfalse := by
    have hnil : record.tags = [] := by
      rw [← List.length_eq_zero_iff, ← h.tags.length_eq, hpart.untagged hfalse, List.length_nil]
    rw [copy, hnil, List.map_nil]
  own _ := by
    refine List.forall_mem_map.mpr fun v hv => ?_
    exact TagWord.ofField?_of_isData (h.values.isData v hv)
  names := by
    refine List.forall_mem_map.mpr fun tag _ field hfield => ?_
    exact TagWord.ofField?_of_isData (.inl (Tag.quoted_of_mem_group field hfield))
  rows := recognise?_of_rows hreadable hnamed h.rows.isData hrows

theorem Becomes.exists_copy (hscope : scope.IsFinite) (h : part.Becomes scope record)
    (hrows : rows.map Line.fields = record.sourceRows) :
    ∃ other, (part.copy record line rows).Becomes Scope.none other ∧ record.Matches other := by
  obtain ⟨values, hvalues, hagree⟩ := h.values.exists_written hscope
  obtain ⟨later, hlater, hagrees⟩ := h.rows.exists_written hscope hrows
  have htags : List.Forall₂ (Tag.Becomes Scope.none) (record.tags.map Tag.group) record.tags := by
    refine List.forall₂_map_left_iff.mpr (List.forall₂_same.mpr fun tag htag => ?_)
    obtain ⟨group, -, hbecomes⟩ := exists_of_mem_right_forall₂ h.tags htag
    exact hbecomes.written hscope
  exact ⟨⟨part.found.kind.key, values, later, record.tags, part.found.kind.keyShown, line.number⟩,
    ⟨rfl, rfl, rfl, hvalues, htags, hlater⟩, ⟨h.key, h.keyShown, hagree, hagrees⟩, rfl⟩

theorem Becomes.copy_declared (hscope : scope.IsFinite) (hdeclared : part.Declared)
    (h : part.Becomes scope record) (hrows : rows.map Line.fields = record.sourceRows) :
    (part.copy record line rows).Declared where
  width := by
    rw [copy, List.length_map, h.values.length_eq]
    exact hdeclared.width
  tags := by
    refine List.forall_mem_map.mpr fun tag htag => ?_
    obtain ⟨group, -, hbecomes⟩ := exists_of_mem_right_forall₂ h.tags htag
    exact (hbecomes.written hscope).admits
  rows := h.rows.declared hdeclared.rows hrows

end Section

/-- The lines of the records of some sections are sections with these records. -/
theorem exists_sections_copied (hreadable : schema.IsReadable) (hnamed : schema.HasNamedKeys)
    (hscope : scope.IsFinite) {parts : List Section} {records : List Record}
    (h : List.Forall₂ (Section.Becomes scope) parts records) (hparts : ∀ part ∈ parts, part.Of schema)
    (hdeclared : ∀ part ∈ parts, part.Declared) {lines : List Line}
    (hlines : lines.map Line.fields = records.flatMap Record.sourceLines) :
    ∃ copies others, (copies.flatMap fun part => part.line :: part.rows) = lines ∧
      (copies.map fun part => part.found.index) = (parts.map fun part => part.found.index) ∧
      (∀ part ∈ copies, part.Of schema) ∧ (∀ part ∈ copies, part.Declared) ∧
      List.Forall₂ (Section.Becomes Scope.none) copies others ∧
      List.Forall₂ Record.Matches records others := by
  induction h generalizing lines with
  | nil =>
      rw [List.flatMap_nil, List.map_eq_nil_iff] at hlines
      exact ⟨[], [], hlines.symm, rfl, List.forall_mem_nil _, List.forall_mem_nil _, .nil, .nil⟩
  | @cons part record parts records hbecomes _ ih =>
      rw [List.forall_mem_cons] at hparts hdeclared
      have hkey : record.key ≠ [] := by
        rw [hbecomes.key]
        exact hreadable.key _ (Schema.kind_mem_of_recognise? hparts.1.found)
      have hhead : record.sourceHead.isEmpty = false := by
        rw [List.isEmpty_eq_false_iff]
        exact List.append_ne_nil_of_left_ne_nil (mt List.map_eq_nil_iff.mp hkey) _
      rw [List.flatMap_cons, Record.sourceLines, hhead, List.map_eq_append_iff] at hlines
      obtain ⟨front, back, rfl, hfront, hback⟩ := hlines
      obtain ⟨line, rows, rfl, hline, hrows⟩ := List.map_eq_cons_iff.mp hfront
      obtain ⟨copies, others, hlines, hindices, hof, hwell, hlater, hmatch⟩ :=
        ih hparts.2 hdeclared.2 hback
      obtain ⟨other, hother, hagree⟩ :=
        @Section.Becomes.exists_copy _ _ _ line rows hscope hbecomes hrows
      refine ⟨part.copy record line rows :: copies, other :: others, ?_, ?_, ?_, ?_, ?_, ?_⟩
      · rw [List.flatMap_cons, hlines]
        rfl
      · rw [List.map_cons, List.map_cons, hindices]
        rfl
      · exact List.forall_mem_cons.mpr
          ⟨hbecomes.copy_of hreadable hnamed hparts.1 hline hrows, hof⟩
      · exact List.forall_mem_cons.mpr ⟨hbecomes.copy_declared hscope hdeclared.1 hrows, hwell⟩
      · exact .cons hother hlater
      · exact .cons hagree hmatch

/-! ## Bodies -/

/-- The rows in front of the first key are copied as rows. -/
theorem exists_leading_copied (hreadable : schema.IsReadable) (hnamed : schema.HasNamedKeys)
    (hscope : scope.IsFinite) {header : Nat} {lines : List Line}
    {own : Option Rows} {front : List Record}
    (h : Outline.LeadingBecome scope header lines own front) (hdeclared : RowsDeclared own lines)
    {copies : List Line} (hcopies : copies.map Line.fields = front.flatMap Record.sourceLines)
    (number : Nat) :
    ∃ others, Outline.LeadingBecome Scope.none number copies own others ∧
      RowsDeclared own copies ∧ (∀ line ∈ copies, schema.recognise? line = none) ∧
      List.Forall₂ Record.Matches front others := by
  cases h with
  | none =>
      rw [List.flatMap_nil, List.map_eq_nil_iff] at hcopies
      rw [hcopies]
      exact ⟨[], .none, rfl, List.forall_mem_nil _, .nil⟩
  | @some rows values hvalues =>
      have hrows : copies.map Line.fields = values.map fun row => row.map Value.field := by
        rw [hcopies, List.flatMap_singleton]
        rfl
      obtain ⟨later, hlater, hagrees⟩ := hvalues.exists_written hscope hrows
      exact ⟨_, .some hlater, hvalues.declared hdeclared hrows,
        recognise?_of_rows hreadable hnamed hvalues.isData hrows,
        .cons ⟨⟨rfl, rfl, .nil, hagrees⟩, rfl⟩ .nil⟩

/-- A body with the lines of some records is read as these records. -/
theorem exists_read_copied (hreadable : schema.IsReadable) (hnamed : schema.HasNamedKeys)
    (hscope : scope.IsFinite) {block copy : Block} {records : List Record}
    (h : read schema scope block = .ok records)
    (hcopy : copy.body.map Line.fields = records.flatMap Record.sourceLines) :
    ∃ others, read schema Scope.none copy = .ok others ∧
      List.Forall₂ Record.Matches records others := by
  obtain ⟨hlines, hleading, hparts⟩ := outlineOf_of schema block.body
  obtain ⟨hdeclared, front, rest, rfl, hfront, hrest⟩ :=
    (read_eq_ok_iff (outlineOf_of schema block.body)).mp h
  rw [List.flatMap_append, List.map_eq_append_iff] at hcopy
  obtain ⟨leading, lines, hbody, hcopyFront, hcopyRest⟩ := hcopy
  obtain ⟨firsts, hfirsts, hrows, hnone, hmatch⟩ := exists_leading_copied hreadable hnamed hscope
    hfront hdeclared.leading hcopyFront copy.number
  obtain ⟨copies, others, hcopies, hindices, hof, hwell, hlater, hmatches⟩ :=
    exists_sections_copied hreadable hnamed hscope hrest hparts hdeclared.sections hcopyRest
  have houtline : Outline.Of schema copy.body ⟨leading, copies⟩ := by
    refine ⟨?_, hnone, hof⟩
    rw [hbody, ← hcopies]
    rfl
  have hwhole : Outline.Declared schema ⟨leading, copies⟩ := by
    refine ⟨hrows, hwell, ?_, ?_⟩
    · rw [Outline.indices, hindices]
      exact hdeclared.occurs
    · rw [Outline.indices, hindices]
      exact hdeclared.order
  refine ⟨firsts ++ others, ?_, List.rel_append hmatch hmatches⟩
  exact (read_eq_ok_iff houtline).mpr ⟨hwhole, firsts, others, rfl, hfirsts, hlater⟩

end Body

end CadTimeline
