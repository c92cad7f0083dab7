import CadTimeline.Proofs.Record.Texts
import CadTimeline.Proofs.Schema.Keys
import CadTimeline.Proofs.Timeline.Source
import CadTimeline.Record.Body

/-!
# Bodies line by line

What one line adds to the records of a body, and a second body with the lines of these
records: it is read step by step like the first one.
-/

namespace CadTimeline

open CadTimeline.Field Text

namespace Record

variable {kind : LineKind} {scope : Scope} {line : Line} {record : Record}

/-- What a line becomes a record of: a key with values. Rail tags stand in the place of
values. -/
inductive OfLine (kind : LineKind) (scope : Scope) (line : Line) : Record → Prop
  | values {values : List Value} (htags : kind.railTags = false)
      (hwidth : kind.fields.accepts values.length = true)
      (h : kind.fields.convert scope (line.fields.drop kind.key.length) = .ok values) :
      OfLine kind scope line ⟨kind.key, values, [], [], kind.keyShown, line.number⟩
  | tags {tags : List Tag} (htags : kind.railTags = true)
      (hwidth : kind.fields.accepts 0 = true) :
      OfLine kind scope line ⟨kind.key, [], [], tags, kind.keyShown, line.number⟩

theorem eq_zero_of_none_accepts {count : Nat} (h : Fields.none.accepts count = true) :
    count = 0 := by
  simpa [Fields.accepts, Fields.none, Fields.fixed, Fields.bounds, Bounds.accepts] using h

theorem ofLine_eq_ok (hnone : kind.railTags = true → kind.fields = Fields.none)
    (h : ofLine kind scope line = .ok record) : OfLine kind scope line record := by
  unfold ofLine at h
  cases htags : kind.railTags with
  | false =>
      simp only [htags, Bool.false_eq_true, if_false, bind_eq_ok, check_eq_ok, pure_eq_ok,
        Bool.not_eq_false'] at h
      obtain ⟨tags, hnil, hwidth, values, hvalues, rfl⟩ := h
      cases hnil
      rw [← Fields.length_of_convert hvalues] at hwidth
      exact .values htags hwidth hvalues
  | true =>
      simp only [htags, if_true, bind_eq_ok, check_eq_ok, pure_eq_ok, Bool.not_eq_false'] at h
      obtain ⟨tags, -, hwidth, values, hvalues, rfl⟩ := h
      rw [← Fields.length_of_convert hvalues] at hwidth
      have hlength : values.length = 0 := eq_zero_of_none_accepts (hnone htags ▸ hwidth)
      cases List.length_eq_zero_iff.mp hlength
      exact .tags htags hwidth

/-- The record of a line is written in one line. -/
theorem OfLine.texts_eq (hkey : kind.key ≠ []) (h : OfLine kind scope line record) :
    record.texts = [record.head] := by
  have hhead : record.head.isEmpty = false := by
    rw [List.isEmpty_eq_false_iff]
    cases h with
    | values => exact List.append_ne_nil_of_left_ne_nil hkey _
    | tags => exact List.append_ne_nil_of_left_ne_nil hkey _
  have hrows : record.rowTexts = [] := by
    cases h with
    | values => rfl
    | tags => rfl
  rw [texts, hhead, hrows]
  rfl

theorem drop_key {other : Line} (hother : other.fields = record.head.map ofText) :
    other.fields.drop record.key.length = (record.values.map Value.display).map ofText := by
  rw [hother, head, List.map_append, List.drop_left' (by rw [List.length_map])]

/-- The line that a record is written as becomes a record that agrees with it. -/
theorem OfLine.exists_readBack (hscope : scope.IsFinite) (h : OfLine kind scope line record)
    {other : Line} (hother : other.fields = record.head.map ofText) :
    ∃ later, ofLine kind Scope.none other = .ok later ∧ record.Agrees later := by
  have hdrop := drop_key hother
  cases h with
  | @values values htags hwidth hvalues =>
      obtain ⟨later, hlater, hagree⟩ := Fields.exists_readBack hscope hvalues
      have hlength : ((values.map Value.display).map ofText).length = values.length := by
        rw [List.length_map, List.length_map]
      refine ⟨⟨kind.key, later, [], [], kind.keyShown, other.number⟩, ?_, ⟨rfl, rfl, hagree, .nil⟩⟩
      unfold ofLine
      simp only [htags, Bool.false_eq_true, if_false, hdrop, hlength, hwidth, hlater]
      rfl
  | tags htags hwidth =>
      refine ⟨⟨kind.key, [], [], [], kind.keyShown, other.number⟩, ?_, ⟨rfl, rfl, .nil, .nil⟩⟩
      unfold ofLine
      simp only [htags, if_true, hdrop, List.map_nil, Tag.groups, List.length_nil, hwidth]
      rfl

end Record

namespace Body

variable {schema : Schema} {scope : Scope} {progress later : Progress} {line : Line}

/-- What a line can add. -/
inductive Step (schema : Schema) (scope : Scope) (progress : Progress) (line : Line) :
    Progress → Prop
  | opened {found : Schema.Recognised} {record : Record}
      (hfound : schema.recognise? line = some found) (hlast : progress.checkLast = .ok ())
      (hslot : checkSlot schema progress.filled found = .ok ())
      (hrecord : Record.ofLine found.kind scope line = .ok record) :
      Step schema scope progress line
        ⟨⟨record, found.kind.rows⟩ :: progress.owners, found.index :: progress.filled⟩
  | row {record : Record} {rows : Rows} {earlier : List Owner} {row : List Value}
      (hnone : schema.recognise? line = none)
      (howners : progress.owners = ⟨record, some rows⟩ :: earlier)
      (hrow : readRow scope record rows line = .ok row) :
      Step schema scope progress line ⟨⟨record.addRow row, some rows⟩ :: earlier, progress.filled⟩

theorem step_eq_ok :
    step schema scope progress line = .ok later ↔ Step schema scope progress line later := by
  constructor
  · intro h
    unfold step at h
    split at h
    · rename_i found hfound
      simp only [bind_eq_ok, mapError_eq_ok, pure_eq_ok] at h
      obtain ⟨_, hlast, _, hslot, record, hrecord, rfl⟩ := h
      exact .opened hfound hlast hslot hrecord
    · rename_i hnone
      split at h
      · rename_i record rows earlier howners
        simp only [bind_eq_ok, mapError_eq_ok, pure_eq_ok] at h
        obtain ⟨row, hrow, rfl⟩ := h
        exact .row hnone howners hrow
      · contradiction
  · intro h
    unfold step
    cases h with
    | opened hfound hlast hslot hrecord =>
        simp only [hfound, hlast, hslot, hrecord]
        rfl
    | row hnone howners hrow =>
        simp only [hnone, howners, hrow]
        rfl

/-- What holds at the start and is kept by every line holds at the end. -/
theorem invariant_of_foldlM {motive : Progress → Prop} {start : Progress} (hstart : motive start)
    (hstep : ∀ {progress line later}, Step schema scope progress line later → motive progress →
      motive later) {lines : List Line}
    (h : lines.foldlM (step schema scope) start = .ok later) : motive later := by
  induction h using foldlM_induction with
  | nil => exact hstart
  | cons hnext _ ih => exact ih (hstep (step_eq_ok.mp hnext) hstart)

/-! ## The texts of a body -/

/-- The lines of all records. -/
def textsOf (records : List Record) : List (List String) :=
  records.flatMap Record.texts

def Progress.records (progress : Progress) : List Record :=
  (progress.owners.map Owner.record).reverse

theorem textsOf_append (records others : List Record) :
    textsOf (records ++ others) = textsOf records ++ textsOf others :=
  List.flatMap_append

theorem textsOf_singleton (record : Record) : textsOf [record] = record.texts :=
  List.append_nil _

theorem records_cons (owner : Owner) (owners : List Owner) (filled : List Nat) :
    Progress.records ⟨owner :: owners, filled⟩ =
      Progress.records ⟨owners, filled⟩ ++ [owner.record] :=
  List.reverse_cons

/-- The texts that a line leaves: the key with the values after it, or the values of a
row. -/
inductive Adds (schema : Schema) (scope : Scope) (line : Line) : List String → Prop
  | head {kind : LineKind} {record : Record} (hkind : kind ∈ schema.kinds)
      (hrecord : Record.OfLine kind scope line record) : Adds schema scope line record.head
  | row {fields : Fields} {row : List Value} (hrow : fields.convert scope line.fields = .ok row) :
      Adds schema scope line (row.map Value.display)

theorem convert_of_readRow {record : Record} {rows : Rows} {row : List Value}
    (h : readRow scope record rows line = .ok row) :
    rows.fields.convert scope line.fields = .ok row := by
  unfold readRow at h
  simp only [check_eq_ok] at h
  exact h.2.2

section

variable (hreadable : schema.IsReadable)
include hreadable

theorem textsOf_opened {found : Schema.Recognised} {record : Record} {owners : List Owner}
    {filled : List Nat} (hfound : schema.recognise? line = some found)
    (hrecord : Record.OfLine found.kind scope line record) (rows : Option Rows) :
    textsOf (Progress.records ⟨⟨record, rows⟩ :: owners, filled⟩) =
      textsOf (Progress.records ⟨owners, filled⟩) ++ [record.head] := by
  have hkey := hreadable.key _ (Schema.kind_mem_of_recognise? hfound)
  rw [records_cons, textsOf_append, textsOf_singleton, hrecord.texts_eq hkey]

omit hreadable in
theorem textsOf_row (record : Record) (rows : Option Rows) (owners : List Owner)
    (filled : List Nat) (row : List Value) :
    textsOf (Progress.records ⟨⟨record.addRow row, rows⟩ :: owners, filled⟩) =
      textsOf (Progress.records ⟨⟨record, rows⟩ :: owners, filled⟩) ++
        [row.map Value.display] := by
  rw [records_cons, records_cons, textsOf_append, textsOf_append, textsOf_singleton,
    textsOf_singleton, Record.texts_addRow, List.append_assoc]

theorem Step.exists_adds (h : Step schema scope progress line later) :
    ∃ added, Adds schema scope line added ∧
      textsOf later.records = textsOf progress.records ++ [added] := by
  obtain ⟨owners, filled⟩ := progress
  cases h with
  | @opened found record hfound hlast hslot hrecord =>
      have hkind := Schema.kind_mem_of_recognise? hfound
      have hof := Record.ofLine_eq_ok (hreadable.tags _ hkind) hrecord
      exact ⟨record.head, .head hkind hof, textsOf_opened hreadable hfound hof _⟩
  | @row record rows earlier row hnone howners hrow =>
      cases howners
      exact ⟨row.map Value.display, .row (convert_of_readRow hrow), textsOf_row _ _ _ _ _⟩

/-- The lines of the records of a body stand for its own lines, one for one. -/
theorem adds_of_foldlM {start : Progress} (hstart : textsOf start.records = [])
    {lines : List Line} (h : lines.foldlM (step schema scope) start = .ok later) :
    List.Forall₂ (Adds schema scope) lines (textsOf later.records) := by
  induction lines using List.reverseRecOn generalizing later with
  | nil =>
      cases h
      rw [hstart]
      exact .nil
  | append_singleton lines line ih =>
      rw [List.foldlM_append, bind_eq_ok] at h
      obtain ⟨progress, hprogress, hstep⟩ := h
      obtain ⟨next, hnext, hnil⟩ := foldlM_cons_eq_ok.mp hstep
      cases hnil
      obtain ⟨added, hadds, htexts⟩ := (step_eq_ok.mp hnext).exists_adds hreadable
      rw [htexts]
      exact List.rel_append (ih hprogress) (.cons hadds .nil)

namespace Adds

variable {added : List String}

theorem ne_nil (h : Adds schema scope line added) (hfields : line.fields ≠ []) : added ≠ [] := by
  cases h with
  | head hkind hrecord =>
      have hkey := hreadable.key _ hkind
      cases hrecord with
      | values => exact List.append_ne_nil_of_left_ne_nil hkey _
      | tags => exact List.append_ne_nil_of_left_ne_nil hkey _
  | row hrow =>
      have hlength := Fields.length_of_convert hrow
      have hpos := List.length_pos_of_ne_nil hfields
      rw [← List.length_pos_iff, List.length_map]
      omega

theorem newline_notMem (h : Adds schema scope line added) (hsingle : line.IsSingle) :
    ∀ text ∈ added, '\n' ∉ text.toList := by
  have hvalues : ∀ {fields : Fields} {own : List Field} {values : List Value}, own ⊆ line.fields →
      fields.convert scope own = .ok values →
        ∀ text ∈ values.map Value.display, '\n' ∉ text.toList := by
    intro fields own values hown hconvert
    rw [List.forall_mem_map]
    exact Fields.newline_notMem_of_convert hconvert fun f hf => hsingle f (hown hf)
  cases h with
  | head hkind hrecord =>
      have hkey := hreadable.line _ hkind
      cases hrecord with
      | values htags hwidth hconvert =>
          exact List.forall_mem_append.mpr ⟨hkey, hvalues (List.drop_subset _ _) hconvert⟩
      | tags => exact List.forall_mem_append.mpr ⟨hkey, List.forall_mem_nil _⟩
  | row hrow => exact hvalues (List.Subset.refl _) hrow

/-- Without parameters a line leaves no more marks than it has. -/
theorem marks_le (h : Adds schema Scope.none line added) :
    marks added ≤ marks (line.fields.map Field.text) := by
  cases h with
  | @head kind record hkind hrecord =>
      have hkey : marks kind.key = 0 := marks_eq_zero (hreadable.unmarked _ hkind)
      cases hrecord with
      | values htags hwidth hconvert =>
          have hvalues := Fields.marks_convert_le hconvert
          rw [List.map_drop] at hvalues
          rw [Record.head, marks_append, hkey, Nat.zero_add]
          exact hvalues.trans (marks_drop_le _ _)
      | tags =>
          rw [Record.head, marks_append, hkey]
          exact Nat.zero_le _
  | row hrow => exact Fields.marks_convert_le hrow

end Adds

theorem marks_le_of_adds {lines : List Line} {texts : List (List String)}
    (h : List.Forall₂ (Adds schema Scope.none) lines texts) :
    marks texts.flatten ≤ marks (lines.flatMap fun line => line.fields.map Field.text) := by
  induction h with
  | nil => exact Nat.le_refl _
  | cons hadds _ ih =>
      rw [List.flatten_cons, List.flatMap_cons, marks_append, marks_append]
      exact Nat.add_le_add (hadds.marks_le hreadable) ih

end

end Body

end CadTimeline
