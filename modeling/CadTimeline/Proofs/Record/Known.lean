import CadTimeline.Proofs.Parameter.References
import CadTimeline.Proofs.Record.Acceptance

/-!
# References of a body

Where a body is read, all references in its fields have values.
-/

namespace CadTimeline

open Substitution

/-- All references in the field have values. -/
def Scope.Knows (scope : Scope) (field : Field) : Prop :=
  ∀ name, .reference name ∈ pieces field.text.toList → ∃ x, scope.value? name = some x

/-- No key word is a reference. -/
def Schema.HasPlainKeys (schema : Schema) : Prop :=
  ∀ kind ∈ schema.kinds, ∀ word ∈ kind.key, '$' ∉ word.toList

variable {scope : Scope} {field : Field}

theorem Scope.knows_of_dollar_notMem (h : '$' ∉ field.text.toList) : scope.Knows field := by
  intro name hname
  rw [← List.append_nil field.text.toList, reference_mem_pieces_append h] at hname
  simp [pieces] at hname

theorem Scope.knows_of_substitute {text : String} (h : scope.substitute field.text = .ok text) :
    scope.Knows field :=
  fun _ hname => exists_of_substitute (mapError_eq_ok.mp h) hname

theorem Scope.Names.knows {name : String} (h : scope.Names field name) : scope.Knows field :=
  fun _ hname => exists_of_substitute h hname

theorem FieldSpec.Converted.knows {spec : FieldSpec} {v : Value}
    (h : spec.Converted scope field v) : scope.Knows field := by
  intro name hname
  cases h with
  | number _ h => exact Expr.exists_of_evalText h hname
  | integer _ h => exact Expr.exists_of_evalText h hname
  | text _ h => exact exists_of_substitute h hname
  | choice _ h => exact exists_of_substitute h hname

theorem Fields.IsConvertible.knows {fields : Fields} {line : List Field}
    (h : fields.IsConvertible scope line) : ∀ field ∈ line, scope.Knows field := by
  intro field hfield
  rw [← List.zipIdx_map_fst 0 line] at hfield
  obtain ⟨entry, hentry, rfl⟩ := List.mem_map.mp hfield
  obtain ⟨value, spec, -, hconverted⟩ := h entry hentry
  exact hconverted.knows

theorem TagWord.dollar_notMem (word : TagWord) : '$' ∉ word.word.toList := by
  cases word <;> decide

namespace Body

variable {schema : Schema}

theorem RowsConvertible.knows {rows : Option Rows} {lines : List Line}
    (hdeclared : RowsDeclared rows lines) (h : RowsConvertible scope rows lines) :
    ∀ line ∈ lines, ∀ field ∈ line.fields, scope.Knows field := by
  cases rows with
  | none =>
      rw [RowsDeclared] at hdeclared
      rw [hdeclared]
      exact List.forall_mem_nil _
  | some rows => exact fun line hline => (h rows rfl line hline).knows

/-- The fields of a key line are key words, fields with values, and tags. -/
theorem Section.Convertible.knows {part : Section} (hpart : part.Of schema)
    (hkeys : schema.HasPlainKeys) (h : part.Convertible scope) :
    ∀ field ∈ part.line.fields, scope.Knows field := by
  intro field hfield
  rw [hpart.fields] at hfield
  rcases List.mem_append.mp hfield with hkey | hfield
  · obtain ⟨word, hword, rfl⟩ := List.mem_map.mp hkey
    have hkind := Schema.kind_mem_of_recognise? hpart.found
    exact Scope.knows_of_dollar_notMem (hkeys _ hkind word hword)
  · rcases List.mem_append.mp hfield with hown | htag
    · exact h.own.knows field hown
    · obtain ⟨group, hgroup, hfield⟩ := List.mem_flatMap.mp htag
      rcases List.mem_cons.mp hfield with rfl | hname
      · exact Scope.knows_of_dollar_notMem (TagWord.dollar_notMem group.1)
      · obtain ⟨name, hnames⟩ := h.names group hgroup field hname
        exact hnames.knows

theorem knows_of_read (hkeys : schema.HasPlainKeys) {block : Block} {records : List Record}
    (h : read schema scope block = .ok records) :
    ∀ line ∈ block.body, ∀ field ∈ line.fields, scope.Knows field := by
  have houtline := outlineOf_of schema block.body
  obtain ⟨hdeclared, hbecomes⟩ := (read_eq_ok_iff houtline).mp h
  have hvalues := (hdeclared.exists_becomes_iff block.number).mp ⟨records, hbecomes⟩
  intro line hline
  rw [← houtline.lines] at hline
  rcases List.mem_append.mp hline with hline | hline
  · exact hvalues.leading.knows hdeclared.leading line hline
  · obtain ⟨part, hpart, hline⟩ := List.mem_flatMap.mp hline
    rcases List.mem_cons.mp hline with rfl | hrow
    · exact (hvalues.sections part hpart).knows (houtline.sections part hpart) hkeys
    · exact (hvalues.sections part hpart).rows.knows (hdeclared.sections part hpart).rows line hrow

end Body

theorem ActionKind.schema_hasPlainKeys (kind : ActionKind) : kind.schema.HasPlainKeys := by
  unfold Schema.HasPlainKeys
  cases kind <;> decide +kernel

theorem Schema.crossRails_hasPlainKeys : Schema.crossRails.HasPlainKeys := by
  unfold HasPlainKeys
  decide +kernel

end CadTimeline
