import CadTimeline.Proofs.Record.Copied

/-!
# Records as lines of a block

The lines of the records of a body can be written: no newline comes into them, no key word needs
quotes or starts with a byte order mark. None of them opens a block, so all of them stay in one.
-/

namespace CadTimeline

open CadTimeline.Field Substitution

namespace Body

variable {schema : Schema} {scope : Scope} {part : Section} {record : Record}

theorem newline_notMem_of_tags {tagged : List (TagWord × List Field)} {tags : List Tag}
    (h : List.Forall₂ (Tag.Becomes scope) tagged tags)
    (hsingle : ∀ field ∈ Tag.spread tagged, '\n' ∉ field.text.toList) :
    ∀ field ∈ Tag.spread (tags.map Tag.group), '\n' ∉ field.text.toList := by
  have hwords : ∀ word : TagWord, '\n' ∉ word.word.toList := by
    intro word
    cases word <;> decide
  intro field hfield
  obtain ⟨_, hgroup, hcases⟩ := Tag.mem_spread.mp hfield
  obtain ⟨tag, htag, rfl⟩ := List.mem_map.mp hgroup
  rcases hcases with rfl | hname
  · exact hwords _
  · obtain ⟨group, hmem, hbecomes⟩ := exists_of_mem_right_forall₂ h htag
    obtain ⟨source, hsource, hnames⟩ := hbecomes.exists_name field hname
    exact newline_notMem_of_substitute hnames
      (hsingle source (Tag.mem_spread.mpr ⟨group, hmem, .inr hsource⟩))

theorem isSourceLine_values {values : List Value} (hne : values ≠ [])
    (hsingle : ∀ v ∈ values, '\n' ∉ v.display.toList) : IsSourceLine (values.map Value.field) where
  ne_nil := mt List.map_eq_nil_iff.mp hne
  writable := List.forall_mem_map.mpr fun v _ => v.isWritable_field
  single := by
    refine List.forall_mem_map.mpr fun v hv => ?_
    rw [Value.text_field]
    exact hsingle v hv
  unmarked := by
    obtain ⟨v, rest, rfl⟩ := List.exists_cons_of_ne_nil hne
    rintro _ ⟨⟩
    exact v.unmarked_field

theorem RowsBecome.isSourceLine {own : Option Rows} {lines : List Line}
    {values : List (List Value)} (h : RowsBecome scope own lines values)
    (hlines : ∀ line ∈ lines, line.IsSingle ∧ line.fields ≠ []) :
    ∀ row ∈ values, IsSourceLine (row.map Value.field) := by
  intro row hrow
  obtain ⟨_, -, line, hline, hbecomes⟩ := h.exists_becomes hrow
  obtain ⟨hsingle, hne⟩ := hlines line hline
  refine isSourceLine_values ?_ (Fields.newline_notMem_of_convert (Fields.convert_eq_ok.mpr hbecomes) hsingle)
  rw [← List.length_pos_iff, hbecomes.length_eq]
  exact List.length_pos_iff.mpr hne

theorem Section.Becomes.isSourceLine (hreadable : schema.IsReadable) (hpart : part.Of schema)
    (h : part.Becomes scope record) (hsingle : part.line.IsSingle) :
    IsSourceLine record.sourceHead := by
  have hline : ∀ field ∈ part.own ++ Tag.spread part.tagged, '\n' ∉ field.text.toList := by
    intro field hfield
    apply hsingle
    rw [hpart.fields]
    exact List.mem_append_right _ hfield
  rw [List.forall_mem_append] at hline
  rw [Record.sourceHead, h.key]
  refine hreadable.isSourceLine (Schema.kind_mem_of_recognise? hpart.found) ?_
  refine List.forall_mem_append.mpr ⟨List.forall_mem_map.mpr fun v hv => ⟨v.isWritable_field, ?_⟩,
    fun field hfield => ⟨Tag.isWritable_of_mem_spread field hfield, ?_⟩⟩
  · rw [Value.text_field]
    exact Fields.newline_notMem_of_convert (Fields.convert_eq_ok.mpr h.values) hline.1 v hv
  · exact newline_notMem_of_tags h.tags hline.2 field hfield

/-- No key of the schema ends a block of this keyword. -/
def KeepsBlock (schema : Schema) (current : Keyword) : Prop :=
  ∀ kind ∈ schema.kinds, Block.opens current ⟨0, kind.key.map fun word => ⟨word, false⟩⟩ = false

/-- The lines of the records of a body can be written, and none of them ends the block. -/
theorem isSourceLine_of_read (hreadable : schema.IsReadable) {current : Keyword}
    (hkeeps : KeepsBlock schema current) {block : Block} {records : List Record}
    (h : read schema scope block = .ok records)
    (hbody : ∀ line ∈ block.body, line.IsSingle ∧ line.fields ≠ []) :
    ∀ fields ∈ records.flatMap Record.sourceLines,
      IsSourceLine fields ∧ Block.opens current ⟨0, fields⟩ = false := by
  obtain ⟨hlines, -, hparts⟩ := outlineOf_of schema block.body
  obtain ⟨-, front, rest, rfl, hfront, hrest⟩ :=
    (read_eq_ok_iff (outlineOf_of schema block.body)).mp h
  rw [← hlines, Outline.lines, List.forall_mem_append] at hbody
  have hrows : ∀ {own : Option Rows} {lines : List Line} {values : List (List Value)},
      RowsBecome scope own lines values → (∀ line ∈ lines, line.IsSingle ∧ line.fields ≠ []) →
        ∀ row ∈ values, IsSourceLine (row.map Value.field) ∧
          Block.opens current ⟨0, row.map Value.field⟩ = false := by
    intro own lines values hbecomes hlines row hrow
    refine ⟨hbecomes.isSourceLine hlines row hrow, Block.opens_of_isData ?_ current⟩
    exact List.forall_mem_map.mpr (hbecomes.isData row hrow)
  rw [List.flatMap_append, List.forall_mem_append]
  constructor
  · generalize schema.leadingRows = own at hfront
    cases hfront with
    | none => exact List.forall_mem_nil _
    | some hvalues =>
        rw [List.flatMap_singleton]
        exact List.forall_mem_map.mpr (hrows hvalues hbody.1)
  · intro fields hfields
    obtain ⟨record, hrecord, hfields⟩ := List.mem_flatMap.mp hfields
    obtain ⟨part, hpart, hbecomes⟩ := exists_of_mem_right_forall₂ hrest hrecord
    have hof := hparts part hpart
    have hline : ∀ line ∈ part.line :: part.rows, line.IsSingle ∧ line.fields ≠ [] :=
      fun line hline => hbody.2 line (List.mem_flatMap.mpr ⟨part, hpart, hline⟩)
    rw [List.forall_mem_cons] at hline
    unfold Record.sourceLines at hfields
    have hsource : ∀ fields ∈ record.sourceRows,
        IsSourceLine fields ∧ Block.opens current ⟨0, fields⟩ = false :=
      List.forall_mem_map.mpr (hrows hbecomes.rows hline.2)
    split at hfields
    · exact hsource fields hfields
    · rcases List.mem_cons.mp hfields with rfl | hrow
      · have hkind := Schema.kind_mem_of_recognise? hof.found
        refine ⟨hbecomes.isSourceLine hreadable hof hline.1.1, ?_⟩
        rw [← hkeeps _ hkind]
        apply Block.opens_congr
        obtain ⟨word, words, hcons⟩ := List.exists_cons_of_ne_nil (hreadable.key _ hkind)
        rw [Record.sourceHead, hbecomes.key, hcons]
        rfl
      · exact hsource fields hrow

end Body

theorem ActionKind.keepsBlock (kind : ActionKind) : Body.KeepsBlock kind.schema (.action kind) := by
  cases kind <;> unfold Body.KeepsBlock <;> decide +kernel

end CadTimeline
