import CadTimeline.Proofs.Record.Body

/-!
# Bodies read back

A body whose lines are those of the records of another one is read as these records,
unless one of their rows starts with the words of a key.
-/

namespace CadTimeline.Body

open CadTimeline.Field Text

/-- No row starts with the key words of a line. -/
def RowsApart (schema : Schema) (records : List Record) : Prop :=
  ∀ record ∈ records, ∀ row ∈ record.rowTexts, schema.opens row = false

/-! ## States that agree -/

structure Owner.Agrees (owner other : Owner) : Prop where
  record : owner.record.Agrees other.record
  rows : owner.rows = other.rows

structure Progress.Agrees (progress other : Progress) : Prop where
  owners : List.Forall₂ Owner.Agrees progress.owners other.owners
  filled : progress.filled = other.filled

variable {schema : Schema} {scope : Scope} {progress later other : Progress} {line written : Line}

theorem agrees_start (schema : Schema) (header written : Nat) :
    (start schema header).Agrees (start schema written) := by
  unfold start
  split
  · exact ⟨.nil, rfl⟩
  · exact ⟨.cons ⟨⟨rfl, rfl, .nil, .nil⟩, rfl⟩ .nil, rfl⟩

theorem rowsApart_start (schema : Schema) (header : Nat) :
    RowsApart schema (start schema header).records := by
  unfold start
  split
  · exact List.forall_mem_nil _
  · exact List.forall_mem_singleton.mpr (List.forall_mem_nil _)

theorem length_start (schema : Schema) (header copy : Nat) :
    (start schema header).owners.length = (start schema copy).owners.length :=
  (agrees_start schema header copy).owners.length_eq

theorem textsOf_start (schema : Schema) (header : Nat) :
    textsOf (start schema header).records = [] := by
  unfold start
  split
  · rfl
  · rfl

theorem Owner.Agrees.check {owner other : Owner} (h : owner.Agrees other)
    (hcheck : owner.check = .ok ()) : other.check = .ok () := by
  unfold Owner.check at hcheck ⊢
  rw [← h.rows]
  split at hcheck
  · rfl
  · rename_i rows hrows
    split at hcheck
    · rename_i hcount
      rw [h.record.rows.length_eq] at hcount
      rw [if_pos hcount]
    · contradiction

theorem Progress.Agrees.checkLast (h : progress.Agrees other)
    (hcheck : progress.checkLast = .ok ()) : other.checkLast = .ok () := by
  obtain ⟨owners, filled⟩ := progress
  obtain ⟨others, filled'⟩ := other
  cases h.owners with
  | nil => rfl
  | cons howner _ => exact howner.check hcheck

theorem Progress.Agrees.records (h : progress.Agrees other) :
    List.Forall₂ Record.Agrees progress.records other.records := by
  rw [Progress.records, Progress.records, List.forall₂_reverse_iff, List.forall₂_map_left_iff,
    List.forall₂_map_right_iff]
  exact h.owners.imp fun _ _ howner => howner.record

/-! ## Steps that agree -/

theorem exists_readRow (hscope : scope.IsFinite) {record later : Record}
    (hagree : record.Agrees later) {rows : Rows} {row : List Value}
    (h : readRow scope record rows line = .ok row)
    (hwritten : written.fields = (row.map Value.display).map ofText) :
    ∃ read, readRow Scope.none later rows written = .ok read ∧
      List.Forall₂ Value.Agrees row read := by
  unfold readRow at h ⊢
  simp only [check_eq_ok, Bool.not_eq_false'] at h ⊢
  obtain ⟨hmost, hwidth, hrow⟩ := h
  obtain ⟨read, hread, hagrees⟩ := Fields.exists_readBack hscope hrow
  have hlength : written.fields.length = line.fields.length := by
    rw [hwritten, List.length_map, List.length_map, Fields.length_of_convert hrow]
  rw [← hwritten] at hread
  refine ⟨read, ⟨?_, ?_, hread⟩, hagrees⟩
  · rw [← hagree.rows.length_eq]
    exact hmost
  · rw [hlength]
    exact hwidth

/-- A line takes no row away. -/
theorem Step.rowsApart (h : Step schema scope progress line later)
    (hapart : RowsApart schema later.records) : RowsApart schema progress.records := by
  intro record hrecord row hrow
  obtain ⟨owners, filled⟩ := progress
  cases h with
  | opened =>
      refine hapart record ?_ row hrow
      rw [records_cons]
      exact List.mem_append_left _ hrecord
  | @row last rows earlier added hnone howners =>
      cases howners
      rw [records_cons, List.mem_append, List.mem_singleton] at hrecord
      rcases hrecord with hrecord | rfl
      · refine hapart record ?_ row hrow
        rw [records_cons]
        exact List.mem_append_left _ hrecord
      · refine hapart (record.addRow added) ?_ row ?_
        · rw [records_cons]
          exact List.mem_append_right _ List.mem_cons_self
        · rw [Record.rowTexts_addRow]
          exact List.mem_append_left _ hrow

section

variable (hreadable : schema.IsReadable) (hscope : scope.IsFinite)
include hreadable hscope

/-- One line, and the line that is written for it. -/
theorem Step.exists_agrees (h : Step schema scope progress line later)
    (hapart : RowsApart schema later.records) (hagree : progress.Agrees other)
    {added : List String}
    (hadded : textsOf later.records = textsOf progress.records ++ [added])
    (hwritten : written.fields = added.map ofText) :
    ∃ next, Step schema Scope.none other written next ∧ later.Agrees next := by
  obtain ⟨owners, filled⟩ := progress
  cases h with
  | @opened found record hfound hlast hslot hrecord =>
      have hkind := Schema.kind_mem_of_recognise? hfound
      have hof := Record.ofLine_eq_ok (hreadable.tags _ hkind) hrecord
      have hkey : record.key = found.kind.key := by
        cases hof with
        | values => rfl
        | tags => rfl
      rw [textsOf_opened hreadable hfound hof] at hadded
      cases List.singleton_injective (List.append_cancel_left hadded)
      obtain ⟨read, hread, hreadAgrees⟩ := hof.exists_readBack hscope hwritten
      rw [Record.head, hkey, List.map_append, ← hreadable.map_key hkind] at hwritten
      have hslot' : checkSlot schema other.filled found = .ok () := by
        rw [← hagree.filled]
        exact hslot
      exact ⟨_, .opened (hreadable.recognise?_of_key hfound hwritten) (hagree.checkLast hlast)
        hslot' hread, .cons ⟨hreadAgrees, rfl⟩ hagree.owners,
        congrArg (found.index :: ·) hagree.filled⟩
  | @row record rows earlier row hnone howners hrow =>
      cases howners
      rw [textsOf_row] at hadded
      cases List.singleton_injective (List.append_cancel_left hadded)
      obtain ⟨others, filled'⟩ := other
      obtain ⟨howners, hfilled⟩ := hagree
      rw [List.forall₂_cons_left_iff] at howners
      obtain ⟨⟨found, rows'⟩, rest, ⟨hfound, hrows⟩, hrest, hcons⟩ := howners
      cases hrows
      obtain ⟨read, hread, hreadAgrees⟩ := exists_readRow hscope hfound hrow hwritten
      have hopens : schema.opens (row.map Value.display) = false := by
        apply hapart (record.addRow row)
        · rw [records_cons]
          exact List.mem_append_right _ List.mem_cons_self
        · rw [Record.rowTexts_addRow]
          exact List.mem_append_right _ List.mem_cons_self
      have hnone' : schema.recognise? written = none := by
        rw [← Option.not_isSome_iff_eq_none, hreadable.isSome_recognise? hwritten, hopens]
        exact Bool.false_ne_true
      exact ⟨_, .row hnone' hcons hread, .cons ⟨hfound.addRow hreadAgrees, rfl⟩ hrest, hfilled⟩

/-- What is read of the lines of a body is read of the lines of its records. -/
theorem exists_foldlM {start other : Progress} (hstart : start.Agrees other)
    (hnil : textsOf start.records = []) {lines : List Line}
    (h : lines.foldlM (step schema scope) start = .ok later)
    (hapart : RowsApart schema later.records) {copies : List Line}
    (hcopies : copies.map Line.fields = (textsOf later.records).map fun texts => texts.map ofText) :
    ∃ next, copies.foldlM (step schema Scope.none) other = .ok next ∧ later.Agrees next := by
  induction lines using List.reverseRecOn generalizing later copies with
  | nil =>
      cases h
      rw [hnil, List.map_nil, List.map_eq_nil_iff] at hcopies
      rw [hcopies]
      exact ⟨other, rfl, hstart⟩
  | append_singleton lines line ih =>
      rw [List.foldlM_append, bind_eq_ok] at h
      obtain ⟨progress, hprogress, hstep⟩ := h
      obtain ⟨_, hnext, hend⟩ := foldlM_cons_eq_ok.mp hstep
      cases hend
      have hone := step_eq_ok.mp hnext
      obtain ⟨added, -, htexts⟩ := hone.exists_adds hreadable
      rw [htexts, List.map_append, List.map_eq_append_iff] at hcopies
      obtain ⟨before, last, rfl, hbefore, hlast⟩ := hcopies
      obtain ⟨copy, rfl, hcopy⟩ := List.map_eq_singleton_iff.mp hlast
      obtain ⟨next, hfold, hagree⟩ := ih hprogress (hone.rowsApart hapart) hbefore
      obtain ⟨final, hfinal, hfinalAgrees⟩ :=
        hone.exists_agrees hreadable hscope hapart hagree htexts hcopy
      refine ⟨final, ?_, hfinalAgrees⟩
      rw [List.foldlM_append, hfold]
      exact foldlM_cons_eq_ok.mpr ⟨final, step_eq_ok.mpr hfinal, rfl⟩

theorem exists_read {block copy : Block} {records : List Record}
    (h : read schema scope block = .ok records) (hapart : RowsApart schema records)
    (hcopy : copy.body.map Line.fields = (textsOf records).map fun texts => texts.map ofText) :
    ∃ later, read schema Scope.none copy = .ok later ∧
      List.Forall₂ Record.Agrees records later := by
  simp only [read, bind_eq_ok, mapError_eq_ok, pure_eq_ok] at h ⊢
  obtain ⟨progress, hprogress, _, hlast, _, hslots, rfl⟩ := h
  obtain ⟨next, hnext, hagree⟩ := exists_foldlM hreadable hscope
    (agrees_start schema block.number copy.number) (textsOf_start schema block.number)
    hprogress hapart hcopy
  rw [hagree.filled] at hslots
  exact ⟨_, ⟨next, hnext, _, hagree.checkLast hlast, _, hslots, rfl⟩, hagree.records⟩

end

/-! ## Counting records -/

theorem read_eq_ok {block : Block} {records : List Record}
    (h : read schema scope block = .ok records) :
    ∃ progress, block.body.foldlM (step schema scope) (start schema block.number) = .ok progress ∧
      progress.records = records := by
  simp only [read, bind_eq_ok, mapError_eq_ok, pure_eq_ok] at h
  obtain ⟨progress, hprogress, -, -, -, -, hrecords⟩ := h
  exact ⟨progress, hprogress, hrecords⟩

/-- Every recognised line is a record. -/
theorem length_of_foldlM {start : Progress} {lines : List Line}
    (h : lines.foldlM (step schema scope) start = .ok later) :
    later.owners.length =
      start.owners.length + lines.countP fun line => (schema.recognise? line).isSome := by
  induction h using foldlM_induction with
  | nil => rfl
  | cons hnext _ ih =>
      rw [ih, List.countP_cons]
      cases step_eq_ok.mp hnext with
      | opened hfound =>
          rw [hfound, List.length_cons, Option.isSome_some, if_pos rfl]
          omega
      | row hnone howners =>
          rw [hnone, howners, List.length_cons, List.length_cons, Option.isSome_none,
            if_neg Bool.false_ne_true]
          omega

/-- How many lines start with the words of a key. -/
def openings (schema : Schema) (progress : Progress) : Nat :=
  (textsOf progress.records).countP schema.opens

section

variable (hreadable : schema.IsReadable)
include hreadable

theorem Step.openings_eq (h : Step schema scope progress line later) :
    later.owners.length = progress.owners.length + 1 ∧
        openings schema later = openings schema progress + 1 ∧
        (RowsApart schema progress.records → RowsApart schema later.records) ∨
      later.owners.length = progress.owners.length ∧
        openings schema progress < openings schema later ∨
      later.owners.length = progress.owners.length ∧
        openings schema later = openings schema progress ∧
        (RowsApart schema progress.records → RowsApart schema later.records) := by
  obtain ⟨owners, filled⟩ := progress
  unfold openings
  cases h with
  | @opened found record hfound hlast hslot hrecord =>
      have hkind := Schema.kind_mem_of_recognise? hfound
      have hof := Record.ofLine_eq_ok (hreadable.tags _ hkind) hrecord
      refine .inl ⟨rfl, ?_, fun hapart => ?_⟩
      · have hopens : schema.opens record.head = true := by
          cases hof with
          | values => exact Schema.opens_append hkind _
          | tags => exact Schema.opens_append hkind _
        rw [textsOf_opened hreadable hfound hof, List.countP_append, List.countP_singleton,
          if_pos hopens]
        rfl
      · rw [records_cons]
        refine List.forall_mem_append.mpr ⟨hapart, List.forall_mem_singleton.mpr ?_⟩
        cases hof with
        | values => exact List.forall_mem_nil _
        | tags => exact List.forall_mem_nil _
  | @row record rows earlier row hnone howners hrow =>
      cases howners
      rw [textsOf_row, List.countP_append, List.countP_singleton]
      cases hopens : schema.opens (row.map Value.display) with
      | true => exact .inr (.inl ⟨rfl, by simp⟩)
      | false =>
          refine .inr (.inr ⟨rfl, by simp, fun hapart => ?_⟩)
          rw [records_cons] at hapart ⊢
          obtain ⟨hearlier, hlast⟩ := List.forall_mem_append.mp hapart
          refine List.forall_mem_append.mpr ⟨hearlier, List.forall_mem_singleton.mpr ?_⟩
          rw [Record.rowTexts_addRow]
          exact List.forall_mem_append.mpr
            ⟨List.forall_mem_singleton.mp hlast, List.forall_mem_singleton.mpr hopens⟩

/-- There are at least as many lines that start with a key as there are records of lines.
If there are no more, no row starts with one. -/
theorem rowsApart_of_foldlM {start : Progress} (hstart : RowsApart schema start.records)
    {lines : List Line}
    (h : lines.foldlM (step schema scope) start = .ok later) :
    later.owners.length ≤ start.owners.length + openings schema later ∧
      (start.owners.length + openings schema later ≤ later.owners.length →
        RowsApart schema later.records) := by
  refine invariant_of_foldlM (motive := fun later =>
    later.owners.length ≤ start.owners.length + openings schema later ∧
      (start.owners.length + openings schema later ≤ later.owners.length →
        RowsApart schema later.records)) ⟨Nat.le_add_right _ _, fun _ => hstart⟩ ?_ h
  rintro progress line later hone ⟨hle, hapart⟩
  rcases hone.openings_eq hreadable with
    ⟨hlength, hopenings, hkept⟩ | ⟨hlength, hopenings⟩ | ⟨hlength, hopenings, hkept⟩
  · exact ⟨by omega, fun hge => hkept (hapart (by omega))⟩
  · exact ⟨by omega, fun hge => by omega⟩
  · exact ⟨by omega, fun hge => hkept (hapart (by omega))⟩

/-- If a second body has as many records and no fewer lines with a key than the first one,
then no row of the first one starts with a key. -/
theorem rowsApart_of_read {other : Scope} {block copy : Block} {records later : List Record}
    (h : read schema scope block = .ok records) (hcopy : read schema other copy = .ok later)
    (hlength : records.length = later.length)
    (hcount : (textsOf records).countP schema.opens ≤
      copy.body.countP fun line => (schema.recognise? line).isSome) :
    RowsApart schema records := by
  obtain ⟨progress, hprogress, rfl⟩ := read_eq_ok h
  obtain ⟨next, hnext, rfl⟩ := read_eq_ok hcopy
  have hrecords : ∀ p : Progress, p.records.length = p.owners.length := by
    intro p
    rw [Progress.records, List.length_reverse, List.length_map]
  obtain ⟨-, hapart⟩ :=
    rowsApart_of_foldlM hreadable (rowsApart_start schema block.number) hprogress
  have hstart := length_start schema block.number copy.number
  have hnextLength := length_of_foldlM hnext
  rw [hrecords, hrecords] at hlength
  apply hapart
  unfold openings
  omega

/-- The records of a body that is read without parameters have no more marks than its
lines. -/
theorem marks_read_le {copy : Block} {later : List Record}
    (hcopy : read schema Scope.none copy = .ok later) :
    marks (textsOf later).flatten ≤
      marks (copy.body.flatMap fun line => line.fields.map Field.text) := by
  obtain ⟨next, hnext, rfl⟩ := read_eq_ok hcopy
  exact marks_le_of_adds hreadable
    (adds_of_foldlM hreadable (textsOf_start schema copy.number) hnext)

end

end CadTimeline.Body
