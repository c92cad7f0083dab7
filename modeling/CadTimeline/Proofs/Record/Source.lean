import CadTimeline.Proofs.Record.Declared
import CadTimeline.Proofs.Timeline.Written

/-!
# Records as lines of a timeline

The lines that a record can be written as in a timeline: key words, tag words and numbers bare,
every text between quotes. A number is no word, and a quoted field is none, so no such field is
taken for a key, a tag or a keyword.
-/

namespace CadTimeline

open Body CadTimeline.Field Substitution Text

/-! ## Fields that hold data -/

/-- The field is quoted, or it does not start with a name. -/
def Field.IsData (field : Field) : Prop :=
  field.quoted = true ∨ takeName field.text.toList = []

theorem Field.IsData.ne_word {field : Field} (h : field.IsData) {word : String}
    (hword : takeName word.toList ≠ []) : field ≠ ⟨word, false⟩ := by
  rintro rfl
  rcases h with h | h
  · contradiction
  · exact hword h

theorem TagWord.ofField?_of_isData {field : Field} (h : field.IsData) : ofField? field = none := by
  have hwords : ∀ word : TagWord, takeName word.word.toList ≠ [] := by
    intro word
    cases word <;> decide
  cases hfield : ofField? field with
  | none => rfl
  | some word => exact absurd (ofField?_eq_some.mp hfield) (h.ne_word (hwords word))

theorem Keyword.takeName_word (keyword : Keyword) : takeName keyword.word.toList ≠ [] := by
  have hall : ∀ keyword ∈ all, takeName keyword.word.toList ≠ [] := by decide
  exact hall keyword (mem_all keyword)

/-- Data opens no block. -/
theorem Block.opens_of_isData {line : Line} (h : ∀ field ∈ line.fields, field.IsData)
    (current : Keyword) : opens current line = false := by
  have hnone : keyword? line = none := by
    unfold keyword?
    cases hfields : line.fields with
    | nil => rfl
    | cons field rest =>
        have hdata := h field (hfields ▸ List.mem_cons_self)
        dsimp only
        split
        · rfl
        · rename_i hquoted
          cases hkeyword : Keyword.ofWord? field.text with
          | none => rfl
          | some keyword =>
              have hbare := hdata.resolve_left hquoted
              rw [← Keyword.word_of_ofWord? hkeyword] at hbare
              exact absurd hbare keyword.takeName_word
  rw [opens, hnone]

namespace Schema

/-- Every key starts with a name. -/
def HasNamedKeys (schema : Schema) : Prop :=
  ∀ kind ∈ schema.kinds, ∀ word ∈ kind.key.head?, takeName word.toList ≠ []

/-- Data is no key. -/
theorem recognise?_of_isData {schema : Schema} (hreadable : schema.IsReadable)
    (hnamed : schema.HasNamedKeys) {line : Line} (h : ∀ field ∈ line.fields, field.IsData) :
    schema.recognise? line = none := by
  rw [← Option.not_isSome_iff_eq_none, isSome_recognise?_iff]
  rintro ⟨kind, hkind, haccepts⟩
  obtain ⟨word, words, hkey⟩ := List.exists_cons_of_ne_nil (hreadable.key kind hkind)
  rw [LineKind.accepts, hkey, List.map_cons, List.isPrefixOf_iff_prefix] at haccepts
  have hword := hnamed kind hkind word (by rw [hkey]; rfl)
  exact (h _ (haccepts.subset List.mem_cons_self)).ne_word hword rfl

end Schema

theorem ActionKind.schema_hasNamedKeys (kind : ActionKind) : kind.schema.HasNamedKeys := by
  cases kind <;> unfold Schema.HasNamedKeys <;> decide +kernel

/-! ## Values -/

namespace Value

/-- The field that a value is written as in a timeline. -/
def field : Value → Field
  | text s => ⟨s, true⟩
  | value => ⟨value.display, false⟩

@[simp] theorem text_field (v : Value) : v.field.text = v.display := by
  cases v <;> rfl

theorem field_of_toText? {v : Value} (h : v.toText? = none) : v.field = ⟨v.display, false⟩ := by
  cases v with
  | text s => contradiction
  | number x => rfl
  | integer n => rfl

theorem quoted_field {v : Value} (h : v.toText? ≠ none) : v.field.quoted = true := by
  cases v with
  | text s => rfl
  | number x => exact absurd rfl h
  | integer n => exact absurd rfl h

theorem isWritable_field (v : Value) : v.field.IsWritable := by
  by_cases h : v.toText? = none
  · intro _
    rw [field_of_toText? h]
    exact needsQuotes_of_isNumeric (display_ne_empty h) fun c hc => isNumeric_of_mem_display h hc
  · intro hbare
    rw [quoted_field h] at hbare
    contradiction

theorem unmarked_field (v : Value) (hbare : v.field.quoted = false) :
    v.field.text.toList.head? ≠ some '\uFEFF' := by
  have h : v.toText? = none := by
    by_contra h
    rw [quoted_field h] at hbare
    contradiction
  intro hhead
  rw [text_field] at hhead
  rcases isNumeric_of_mem_display h (List.mem_of_mem_head? hhead) with hc | hc | hc <;>
    contradiction

end Value

theorem Number.takeName_integer (n : Int) : takeName (toString n).toList = [] := by
  rw [Number.toString_integer, String.toList_ofList]
  split
  · exact takeName_cons_eq_nil.mpr rfl
  · obtain ⟨c, rest, hdigits⟩ := List.exists_cons_of_ne_nil (@Nat.toDigits_ne_nil n.natAbs 10)
    have hdigit : c.isDigit = true :=
      Decimal.isDigit_of_mem_toDigits c (hdigits ▸ List.mem_cons_self)
    rw [hdigits]
    exact takeName_cons_eq_nil.mpr (Token.isNameStart_of_isDigit hdigit)

namespace FieldSpec

variable {spec : FieldSpec} {scope : Scope} {field other : Field} {v : Value}

/-- Only the text of a field counts for its value. -/
theorem Converted.of_text_eq (h : spec.Converted scope field v) (htext : field.text = other.text) :
    spec.Converted scope other v := by
  cases h with
  | number hkind h => exact .number hkind (htext ▸ h)
  | integer hkind h hwhole hrange => exact .integer hkind (htext ▸ h) hwhole hrange
  | text hkind h => exact .text hkind (htext ▸ h)
  | choice hkind h hmem => exact .choice hkind (htext ▸ h) hmem

theorem Converted.isData (h : spec.Converted scope field v) : v.field.IsData := by
  cases h with
  | number _ h =>
      have hname := takeName_plain (Expr.isFinite_of_evalText h) []
      rw [List.append_nil] at hname
      exact .inr hname
  | integer => exact .inr (Number.takeName_integer _)
  | text => exact .inl rfl
  | choice => exact .inl rfl

end FieldSpec

namespace Fields

variable {fields : Fields} {scope : Scope} {line other : List Field} {values : List Value}

theorem Becomes.of_texts_eq (h : fields.Becomes scope line values)
    (htexts : line.map Field.text = other.map Field.text) : fields.Becomes scope other values := by
  have hfrom : ∀ n, List.Forall₂ (fields.ConvertedAt scope) (line.zipIdx n) values →
      List.Forall₂ (fields.ConvertedAt scope) (other.zipIdx n) values := by
    clear h
    intro n hvalues
    induction line generalizing other values n with
    | nil =>
        rw [List.map_nil, eq_comm, List.map_eq_nil_iff] at htexts
        rw [htexts]
        exact hvalues
    | cons field line ih =>
        obtain ⟨first, rest, rfl, hfirst, hrest⟩ := List.map_eq_cons_iff.mp htexts.symm
        rw [List.zipIdx_cons, List.forall₂_cons_left_iff] at hvalues
        obtain ⟨v, later, ⟨spec, hspec, hv⟩, hlater, rfl⟩ := hvalues
        rw [List.zipIdx_cons]
        exact .cons ⟨spec, hspec, hv.of_text_eq hfirst.symm⟩ (ih hrest.symm _ hlater)
  exact hfrom 0 h

theorem Becomes.length_eq (h : fields.Becomes scope line values) : values.length = line.length := by
  rw [← List.Forall₂.length_eq h, List.length_zipIdx]

theorem Becomes.isData (h : fields.Becomes scope line values) : ∀ v ∈ values, v.field.IsData := by
  intro v hv
  obtain ⟨entry, -, spec, -, hconverted⟩ := exists_of_mem_right_forall₂ h hv
  exact hconverted.isData

/-- Values that are written in a timeline are read again. -/
theorem Becomes.exists_written (hscope : scope.IsFinite) (h : fields.Becomes scope line values) :
    ∃ later, fields.Becomes Scope.none (values.map Value.field) later ∧
      List.Forall₂ Value.Agrees values later := by
  obtain ⟨later, hlater, hagree⟩ := exists_readBack hscope (convert_eq_ok.mpr h)
  have htexts : ((values.map Value.display).map ofText).map Field.text =
      (values.map Value.field).map Field.text := by
    simp only [List.map_map]
    exact List.map_congr_left fun v _ => v.text_field.symm
  exact ⟨later, Becomes.of_texts_eq (convert_eq_ok.mp hlater) htexts, hagree⟩

end Fields

/-! ## Tags -/

namespace Tag

/-- The word and the names that a tag is written as in a timeline. -/
def group : Tag → TagWord × List Field
  | coRail name => (.coRail, [⟨name, true⟩])
  | crossRails names => (.crossRails, names.map fun name => ⟨name, true⟩)

theorem quoted_of_mem_group {tag : Tag} : ∀ field ∈ tag.group.2, field.quoted = true := by
  cases tag with
  | coRail name => exact List.forall_mem_singleton.mpr rfl
  | crossRails names => exact List.forall_mem_map.mpr fun _ _ => rfl

theorem mem_spread {groups : List (TagWord × List Field)} {field : Field} :
    field ∈ spread groups ↔
      ∃ group ∈ groups, field = ⟨group.1.word, false⟩ ∨ field ∈ group.2 := by
  simp only [spread, List.mem_flatMap, List.mem_cons]

theorem isWritable_of_mem_spread {tags : List Tag} :
    ∀ field ∈ spread (tags.map group), field.IsWritable := by
  have hwords : ∀ word : TagWord, needsQuotes word.word.toList = false := by
    intro word
    cases word <;> decide +kernel
  intro field hfield hbare
  obtain ⟨_, hgroup, hcases⟩ := mem_spread.mp hfield
  obtain ⟨tag, -, rfl⟩ := List.mem_map.mp hgroup
  rcases hcases with rfl | hname
  · exact hwords _
  · rw [quoted_of_mem_group field hname] at hbare
    contradiction

variable {scope : Scope} {tag : Tag}

theorem Becomes.exists_name {group : TagWord × List Field} (h : Becomes scope group tag) :
    ∀ field ∈ tag.group.2, ∃ source ∈ group.2, scope.Names source field.text := by
  cases h with
  | coRail h => exact List.forall_mem_singleton.mpr ⟨_, List.mem_cons_self, h⟩
  | crossRails _ h =>
      exact List.forall_mem_map.mpr fun name hname => exists_of_mem_right_forall₂ h hname

/-- A tag that is written in a timeline is read again. -/
theorem Becomes.written (hscope : scope.IsFinite) {group : TagWord × List Field}
    (h : Becomes scope group tag) : Becomes Scope.none tag.group tag := by
  have hname : ∀ {field : Field} {name : String}, scope.Names field name →
      Scope.none.Names ⟨name, true⟩ name := fun h =>
    substitute_of_hasNoReference (hasNoReference_of_substitute hscope h) _
  cases h with
  | coRail h => exact .coRail (hname h)
  | @crossRails fields names hne h =>
      have hnames : names.map (fun name => Field.mk name true) ≠ [] := by
        rw [ne_eq, List.map_eq_nil_iff, ← List.length_eq_zero_iff, ← h.length_eq,
          List.length_eq_zero_iff]
        exact hne
      refine .crossRails hnames (List.forall₂_map_left_iff.mpr (List.forall₂_same.mpr ?_))
      intro name hmem
      obtain ⟨field, -, hfield⟩ := exists_of_mem_right_forall₂ h hmem
      exact hname hfield

end Tag

/-! ## Records -/

/-- A key makes a line, with any fields behind it that can be written. -/
theorem Schema.IsReadable.isSourceLine {schema : Schema} (h : schema.IsReadable) {kind : LineKind}
    (hkind : kind ∈ schema.kinds) {rest : List Field}
    (hrest : ∀ field ∈ rest, field.IsWritable ∧ '\n' ∉ field.text.toList) :
    IsSourceLine ((kind.key.map fun word => ⟨word, false⟩) ++ rest) := by
  have hkey := h.key _ hkind
  refine ⟨?_, ?_, ?_, ?_⟩
  · exact List.append_ne_nil_of_left_ne_nil (mt List.map_eq_nil_iff.mp hkey) _
  · refine List.forall_mem_append.mpr ⟨?_, fun field hfield => (hrest field hfield).1⟩
    exact List.forall_mem_map.mpr fun word hword _ => h.bare _ hkind word hword
  · refine List.forall_mem_append.mpr ⟨?_, fun field hfield => (hrest field hfield).2⟩
    exact List.forall_mem_map.mpr fun word hword => h.line _ hkind word hword
  · obtain ⟨word, words, hwords⟩ := List.exists_cons_of_ne_nil hkey
    have hmark := h.unmarked _ hkind word (hwords ▸ List.mem_cons_self)
    rw [hwords]
    rintro _ ⟨⟩ - hhead
    exact hmark (List.mem_of_mem_head? hhead)

namespace Record

/-- The fields of the line of a record in a timeline. -/
def sourceHead (record : Record) : List Field :=
  (record.key.map fun word => ⟨word, false⟩) ++
    (record.values.map Value.field ++ Tag.spread (record.tags.map Tag.group))

/-- The fields of the rows of a record in a timeline. -/
def sourceRows (record : Record) : List (List Field) :=
  record.rows.map fun row => row.map Value.field

/-- The lines of a record in a timeline. A record without a key has rows only. -/
def sourceLines (record : Record) : List (List Field) :=
  if record.sourceHead.isEmpty then record.sourceRows else record.sourceHead :: record.sourceRows

/-- Two records have the same key, values, rows and tags. -/
structure Matches (record other : Record) : Prop extends record.Agrees other where
  tags : record.tags = other.tags

end Record

end CadTimeline
