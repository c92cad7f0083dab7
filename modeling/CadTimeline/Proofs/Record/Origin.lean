import CadTimeline.Proofs.Record.Acceptance

/-!
# Where the values of records come from

Every value of a record is what a field of the block was converted to, so its numbers are
finite.
-/

namespace CadTimeline

open Binary64

/-! ## Values of fields -/

/-- The value is what some field is converted to in this scope. -/
def Scope.Gives (scope : Scope) (v : Value) : Prop :=
  ∃ spec field, FieldSpec.Converted spec scope field v

theorem FieldSpec.Converted.isFinite {spec : FieldSpec} {scope : Scope} {field : Field} {v : Value}
    (h : spec.Converted scope field v) : ∀ x ∈ v.toFloat?, x.isFinite = true := by
  intro x hx
  cases h with
  | number _ h =>
      cases hx
      exact Expr.isFinite_of_evalText h
  | integer _ h hwhole _ =>
      cases hx
      have hfinite := Expr.isFinite_of_evalText h
      rw [Number.nearest_toInt hfinite hwhole, isFinite_iff, rank_ofRank (isFinite_iff.mp hfinite)]
      exact isFinite_iff.mp hfinite
  | text => cases hx
  | choice => cases hx

theorem Fields.Becomes.gives {fields : Fields} {scope : Scope} {line : List Field}
    {values : List Value} (h : fields.Becomes scope line values) : ∀ v ∈ values, scope.Gives v := by
  intro v hv
  obtain ⟨entry, -, spec, -, hconverted⟩ := exists_of_mem_right_forall₂ h hv
  exact ⟨spec, entry.1, hconverted⟩

namespace Body

variable {schema : Schema} {scope : Scope} {block : Block} {records : List Record} {record : Record}

theorem RowsBecome.gives {rows : Option Rows} {lines : List Line} {values : List (List Value)}
    (h : RowsBecome scope rows lines values) : ∀ row ∈ values, ∀ v ∈ row, scope.Gives v := by
  intro row hrow
  obtain ⟨own, -, line, -, hbecomes⟩ := h.exists_becomes hrow
  exact hbecomes.gives

/-- The values of a record and of its rows come from fields of its block. -/
theorem gives_of_read (h : read schema scope block = .ok records) (hmem : record ∈ records) :
    (∀ v ∈ record.values, scope.Gives v) ∧ ∀ row ∈ record.rows, ∀ v ∈ row, scope.Gives v := by
  obtain ⟨-, front, rest, rfl, hfront, hrest⟩ :=
    (read_eq_ok_iff (outlineOf_of schema block.body)).mp h
  rcases List.mem_append.mp hmem with hmem | hmem
  · generalize schema.leadingRows = rows at hfront
    cases hfront with
    | none => exact absurd hmem List.not_mem_nil
    | some hvalues =>
        rw [List.mem_singleton.mp hmem]
        exact ⟨List.forall_mem_nil _, hvalues.gives⟩
  · obtain ⟨part, -, hbecomes⟩ := exists_of_mem_right_forall₂ hrest hmem
    exact ⟨hbecomes.values.gives, hbecomes.rows.gives⟩

end Body

end CadTimeline
