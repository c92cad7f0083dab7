import CadTimeline.Proofs.Record.Order
import CadTimeline.Proofs.Record.Outline

/-!
# What a schema declares

What a schema asks of a body, read off the outline: how many rows there are and how wide
lines are, how often slots are filled and in which order. And what the body becomes: each
section one record, where all its fields have values.
-/

namespace CadTimeline

/-! ## Values of fields -/

/-- Each field of a line has a value. -/
def Fields.IsConvertible (fields : Fields) (scope : Scope) (line : List Field) : Prop :=
  ∀ entry ∈ line.zipIdx, ∃ value, fields.ConvertedAt scope entry value

/-- The fields of a line become these values. -/
def Fields.Becomes (fields : Fields) (scope : Scope) (line : List Field) (values : List Value) :
    Prop :=
  List.Forall₂ (fields.ConvertedAt scope) line.zipIdx values

theorem Fields.isConvertible_iff {fields : Fields} {scope : Scope} {line : List Field} :
    fields.IsConvertible scope line ↔ ∃ values, fields.Becomes scope line values :=
  forall_exists_iff_forall₂

/-- The name that a field of a tag stands for. -/
def Scope.Names (scope : Scope) (field : Field) (name : String) : Prop :=
  Substitution.substitute scope.value? field.text = .ok name

/-- How many names a tag word takes. -/
def TagWord.Admits : TagWord → Nat → Prop
  | coRail, count => count = 1
  | crossRails, count => 1 ≤ count

namespace Tag

/-- What a tag word with names becomes. -/
inductive Becomes (scope : Scope) : TagWord × List Field → Tag → Prop
  | coRail {field : Field} {name : String} (h : scope.Names field name) :
      Becomes scope (.coRail, [field]) (.coRail name)
  | crossRails {fields : List Field} {names : List String} (hne : fields ≠ [])
      (h : List.Forall₂ scope.Names fields names) :
      Becomes scope (.crossRails, fields) (.crossRails names)

theorem Becomes.admits {scope : Scope} {group : TagWord × List Field} {tag : Tag}
    (h : Becomes scope group tag) : group.1.Admits group.2.length := by
  cases h with
  | coRail => rfl
  | crossRails hne => exact List.length_pos_iff.mpr hne

theorem exists_becomes {scope : Scope} {group : TagWord × List Field}
    (hadmits : group.1.Admits group.2.length)
    (hnames : ∀ field ∈ group.2, ∃ name, scope.Names field name) :
    ∃ tag, Becomes scope group tag := by
  obtain ⟨word, fields⟩ := group
  obtain ⟨names, h⟩ := forall_exists_iff_forall₂.mp hnames
  cases word with
  | coRail =>
      obtain ⟨field, rfl⟩ := List.length_eq_one_iff.mp hadmits
      obtain ⟨name, -, hname, -, -⟩ := List.forall₂_cons_left_iff.mp h
      exact ⟨_, .coRail hname⟩
  | crossRails => exact ⟨_, .crossRails (List.length_pos_iff.mp hadmits) h⟩

theorem Becomes.exists_names {scope : Scope} {group : TagWord × List Field} {tag : Tag}
    (h : Becomes scope group tag) : ∀ field ∈ group.2, ∃ name, scope.Names field name := by
  cases h with
  | coRail h => exact List.forall_mem_singleton.mpr ⟨_, h⟩
  | crossRails _ h => exact forall_exists_iff_forall₂.mpr ⟨_, h⟩

theorem read_eq_ok {scope : Scope} {group : TagWord × List Field} {tag : Tag} :
    read scope group.1 group.2 = .ok tag ↔ Becomes scope group tag := by
  obtain ⟨word, fields⟩ := group
  simp only [read, bind_eq_ok, mapM_eq_ok, Scope.substitute, mapError_eq_ok]
  constructor
  · rintro ⟨names, hnames, h⟩
    cases word with
    | coRail =>
        cases hnames with
        | nil => contradiction
        | cons hname hrest =>
            cases hrest with
            | nil =>
                cases h
                exact .coRail hname
            | cons _ _ => contradiction
    | crossRails =>
        cases hnames with
        | nil => contradiction
        | cons hname hrest =>
            cases h
            exact .crossRails (List.cons_ne_nil _ _) (.cons hname hrest)
  · intro h
    cases h with
    | coRail h => exact ⟨_, .cons h .nil, rfl⟩
    | crossRails hne h =>
        cases h with
        | nil => exact absurd rfl hne
        | cons hname hrest => exact ⟨_, .cons hname hrest, rfl⟩

end Tag

namespace Body

/-! ## What is declared -/

/-- Rows are as many as they may be, and as wide. -/
def RowsDeclared : Option Rows → List Line → Prop
  | none, lines => lines = []
  | some rows, lines => rows.count.accepts lines.length = true ∧
      ∀ line ∈ lines, rows.fields.accepts line.fields.length = true

/-- Every field of the rows has a value. -/
def RowsConvertible (scope : Scope) (rows : Option Rows) (lines : List Line) : Prop :=
  ∀ own ∈ rows, ∀ line ∈ lines, own.fields.IsConvertible scope line.fields

/-- The rows become these values, row by row. -/
def RowsBecome (scope : Scope) (rows : Option Rows) (lines : List Line)
    (values : List (List Value)) : Prop :=
  match rows with
  | none => values = []
  | some own =>
    List.Forall₂ (fun line row => own.fields.Becomes scope line.fields row) lines values

/-- Each row of values comes from a line. -/
theorem RowsBecome.exists_becomes {scope : Scope} {rows : Option Rows} {lines : List Line}
    {values : List (List Value)} (h : RowsBecome scope rows lines values) {row : List Value}
    (hrow : row ∈ values) :
    ∃ own ∈ rows, ∃ line ∈ lines, own.fields.Becomes scope line.fields row := by
  cases rows with
  | none =>
      have hnil : values = [] := h
      rw [hnil] at hrow
      exact absurd hrow List.not_mem_nil
  | some own => exact ⟨own, rfl, exists_of_mem_right_forall₂ h hrow⟩

namespace Section

/-- The line and the rows of a section are as its kind declares them. -/
structure Declared (part : Section) : Prop where
  width : part.found.kind.fields.accepts part.own.length = true
  tags : ∀ group ∈ part.tagged, group.1.Admits group.2.length
  rows : RowsDeclared part.found.kind.rows part.rows

/-- Every field of a section has a value. -/
structure Convertible (scope : Scope) (part : Section) : Prop where
  own : part.found.kind.fields.IsConvertible scope part.own
  names : ∀ group ∈ part.tagged, ∀ field ∈ group.2, ∃ name, scope.Names field name
  rows : RowsConvertible scope part.found.kind.rows part.rows

/-- The record is that of the section: of its line, with exactly its rows. -/
structure Becomes (scope : Scope) (part : Section) (record : Record) : Prop where
  key : record.key = part.found.kind.key
  keyShown : record.keyShown = part.found.kind.keyShown
  line : record.line = part.line.number
  values : part.found.kind.fields.Becomes scope part.own record.values
  tags : List.Forall₂ (Tag.Becomes scope) part.tagged record.tags
  rows : RowsBecome scope part.found.kind.rows part.rows record.rows

end Section

namespace Outline

/-- The slots that the key lines fill, in order. -/
def indices (outline : Outline) : List Nat :=
  outline.sections.map fun part => part.found.index

/-- The outline is as the schema declares it. -/
structure Declared (schema : Schema) (outline : Outline) : Prop where
  leading : RowsDeclared schema.leadingRows outline.leading
  sections : ∀ part ∈ outline.sections, part.Declared
  occurs : ∀ entry ∈ schema.slots.zipIdx,
    entry.1.occurs.allows (outline.indices.count entry.2) = true
  order : schema.ordered = true → outline.indices.Pairwise (· ≤ ·)

/-- Every field of the body has a value. -/
structure Convertible (schema : Schema) (scope : Scope) (outline : Outline) : Prop where
  leading : RowsConvertible scope schema.leadingRows outline.leading
  sections : ∀ part ∈ outline.sections, part.Convertible scope

/-- The rows before the first key line belong to a record of the header, if the schema
knows such rows. -/
inductive LeadingBecome (scope : Scope) (header : Nat) (lines : List Line) :
    Option Rows → List Record → Prop
  | none : LeadingBecome scope header lines none []
  | some {rows : Rows} {values : List (List Value)}
      (h : RowsBecome scope (some rows) lines values) :
      LeadingBecome scope header lines (some rows) [⟨[], [], values, [], false, header⟩]

/-- The records are those of the leading rows and, one for one, of the sections. -/
def Becomes (schema : Schema) (scope : Scope) (header : Nat) (outline : Outline)
    (records : List Record) : Prop :=
  ∃ front rest, records = front ++ rest ∧
    LeadingBecome scope header outline.leading schema.leadingRows front ∧
    List.Forall₂ (Section.Becomes scope) outline.sections rest

end Outline

variable {schema : Schema} {scope : Scope} {part : Section}

/-! ## What has values -/

theorem exists_rowsBecome_iff {rows : Option Rows} {lines : List Line} :
    (∃ values, RowsBecome scope rows lines values) ↔ RowsConvertible scope rows lines := by
  cases rows with
  | none => exact iff_of_true ⟨[], rfl⟩ fun own hown => nomatch hown
  | some rows =>
      have hlines : (∃ values, RowsBecome scope (some rows) lines values) ↔
          ∀ line ∈ lines, rows.fields.IsConvertible scope line.fields := by
        simp only [Fields.isConvertible_iff]
        exact forall_exists_iff_forall₂.symm
      rw [hlines]
      constructor
      · intro h own hown
        cases hown
        exact h
      · intro h
        exact h rows rfl

theorem Section.Declared.exists_becomes_iff (h : part.Declared) :
    (∃ record, part.Becomes scope record) ↔ part.Convertible scope := by
  constructor
  · rintro ⟨record, hbecomes⟩
    refine ⟨Fields.isConvertible_iff.mpr ⟨_, hbecomes.values⟩, ?_,
      exists_rowsBecome_iff.mp ⟨_, hbecomes.rows⟩⟩
    intro group hgroup
    obtain ⟨tag, -, htag⟩ := exists_of_mem_forall₂ hbecomes.tags hgroup
    exact htag.exists_names
  · rintro ⟨hown, hnames, hrows⟩
    obtain ⟨values, hvalues⟩ := Fields.isConvertible_iff.mp hown
    obtain ⟨rows, hrows⟩ := exists_rowsBecome_iff.mpr hrows
    obtain ⟨tags, htags⟩ := forall_exists_iff_forall₂.mp fun group hgroup =>
      Tag.exists_becomes (h.tags group hgroup) (hnames group hgroup)
    exact ⟨⟨_, values, rows, tags, _, _⟩, rfl, rfl, rfl, hvalues, htags, hrows⟩

theorem exists_leadingBecome_iff {lines : List Line} {rows : Option Rows} {header : Nat} :
    (∃ front, Outline.LeadingBecome scope header lines rows front) ↔
      RowsConvertible scope rows lines := by
  rw [← exists_rowsBecome_iff]
  constructor
  · rintro ⟨front, hfront⟩
    cases hfront with
    | none => exact ⟨[], rfl⟩
    | some hvalues => exact ⟨_, hvalues⟩
  · rintro ⟨values, hvalues⟩
    cases rows with
    | none => exact ⟨[], .none⟩
    | some rows => exact ⟨_, .some hvalues⟩

theorem Outline.Declared.exists_becomes_iff {outline : Outline} (h : outline.Declared schema)
    (header : Nat) :
    (∃ records, outline.Becomes schema scope header records) ↔
      outline.Convertible schema scope := by
  constructor
  · rintro ⟨_, front, rest, rfl, hfront, hrest⟩
    refine ⟨exists_leadingBecome_iff.mp ⟨front, hfront⟩, fun part hpart => ?_⟩
    obtain ⟨record, -, hbecomes⟩ := exists_of_mem_forall₂ hrest hpart
    exact (h.sections part hpart).exists_becomes_iff.mp ⟨record, hbecomes⟩
  · rintro ⟨hleading, hparts⟩
    obtain ⟨front, hfront⟩ := exists_leadingBecome_iff.mpr hleading
    obtain ⟨rest, hrest⟩ := forall_exists_iff_forall₂.mp fun part hpart =>
      (h.sections part hpart).exists_becomes_iff.mpr (hparts part hpart)
    exact ⟨front ++ rest, front, rest, rfl, hfront, hrest⟩

end Body

end CadTimeline
