import CadTimeline.Proofs.Record.Declared
import CadTimeline.Proofs.Record.Surplus

/-!
# Accepted bodies

A body is read line by line, and what is asked of it is checked on the way: of a row when
it comes, of a record when the next one begins, of the slots in the end. All in all this
asks that the outline of the body is as its schema declares, and that its fields have
values.
-/

namespace CadTimeline

namespace Body

variable {schema : Schema} {scope : Scope} {progress later : Progress} {part : Section}

/-! ## Rows -/

theorem readRow_eq_ok {record : Record} {rows : Rows} {line : Line} {row : List Value} :
    readRow scope record rows line = .ok row ↔
      (∀ most ∈ rows.count.most, record.rows.length < most) ∧
        rows.fields.accepts line.fields.length = true ∧
          rows.fields.Becomes scope line.fields row := by
  simp only [readRow, check_eq_ok, Bool.not_eq_false', Fields.convert_eq_ok, Fields.Becomes]
  refine and_congr_left fun _ => ?_
  simp [Option.any_eq_false]

theorem step_row_eq_ok {line : Line} (hline : schema.recognise? line = none) {record : Record}
    {rows : Rows} {earlier : List Owner} {filled : List Nat} :
    step schema scope ⟨⟨record, some rows⟩ :: earlier, filled⟩ line = .ok later ↔
      ∃ row, readRow scope record rows line = .ok row ∧
        later = ⟨⟨record.addRow row, some rows⟩ :: earlier, filled⟩ := by
  simp only [step, hline, bind_eq_ok, mapError_eq_ok, pure_eq_ok]
  exact exists_congr fun row => and_congr_right' eq_comm

/-- Lines without a key are read after a record that may own rows exactly when they are as
it wants them, and then they are its rows. -/
theorem foldlM_rows_iff {record : Record} {rows : Rows} {earlier : List Owner} {filled : List Nat}
    {lines : List Line} (hlines : ∀ line ∈ lines, schema.recognise? line = none) :
    lines.foldlM (step schema scope) ⟨⟨record, some rows⟩ :: earlier, filled⟩ = .ok later ∧
        later.checkLast = .ok () ↔
      rows.count.accepts (record.rows.length + lines.length) = true ∧
        (∀ line ∈ lines, rows.fields.accepts line.fields.length = true) ∧
          ∃ values, RowsBecome scope (some rows) lines values ∧
            later = ⟨⟨{ record with rows := record.rows ++ values }, some rows⟩ :: earlier,
              filled⟩ := by
  induction lines generalizing record with
  | nil =>
      rw [List.foldlM_nil, pure_eq_ok]
      constructor
      · rintro ⟨rfl, hlast⟩
        refine ⟨?_, List.forall_mem_nil _, [], .nil, ?_⟩
        · simpa [Progress.checkLast, Owner.check] using hlast
        · rw [List.append_nil]
      · rintro ⟨hcount, -, values, hvalues, rfl⟩
        cases hvalues
        refine ⟨?_, ?_⟩
        · rw [List.append_nil]
        · simpa [Progress.checkLast, Owner.check] using hcount
  | cons line lines ih =>
      rw [List.forall_mem_cons] at hlines
      have hlength : ∀ row, (record.addRow row).rows.length + lines.length =
          record.rows.length + (line :: lines).length := by
        intro row
        simp only [Record.addRow, List.length_append, List.length_cons, List.length_nil]
        omega
      have hadd : ∀ row values, (record.addRow row).rows ++ values = record.rows ++ row :: values :=
        fun row values => List.append_assoc _ _ _
      simp only [foldlM_cons_eq_ok, step_row_eq_ok hlines.1]
      constructor
      · rintro ⟨⟨_, ⟨row, hrow, rfl⟩, hrest⟩, hlast⟩
        obtain ⟨hcount, hwidth, values, hvalues, hlater⟩ := (ih hlines.2).mp ⟨hrest, hlast⟩
        obtain ⟨-, hfirst, hbecomes⟩ := readRow_eq_ok.mp hrow
        refine ⟨?_, List.forall_mem_cons.mpr ⟨hfirst, hwidth⟩, row :: values,
          .cons hbecomes hvalues, ?_⟩
        · rwa [hlength] at hcount
        · rwa [hadd] at hlater
      · rintro ⟨hcount, hwidth, values, hvalues, hlater⟩
        rw [List.forall_mem_cons] at hwidth
        obtain ⟨row, values, hbecomes, hrest, rfl⟩ := List.forall₂_cons_left_iff.mp hvalues
        have hmost : ∀ most ∈ rows.count.most, record.rows.length < most := by
          apply Bounds.lt_of_accepts hcount
          rw [List.length_cons]
          omega
        have hlater := (ih hlines.2).mpr
          ⟨by rwa [hlength row], hwidth.2, values, hrest, by rwa [hadd]⟩
        exact ⟨⟨_, ⟨row, readRow_eq_ok.mpr ⟨hmost, hwidth.1, hbecomes⟩, rfl⟩, hlater.1⟩, hlater.2⟩

/-- Where no record may own rows, no line without a key is read. -/
theorem foldlM_unowned_iff (hnone : progress.owners.head?.bind Owner.rows = none)
    {lines : List Line} (hlines : ∀ line ∈ lines, schema.recognise? line = none) :
    lines.foldlM (step schema scope) progress = .ok later ∧ later.checkLast = .ok () ↔
      lines = [] ∧ later = progress := by
  obtain ⟨owners, filled⟩ := progress
  cases lines with
  | nil =>
      rw [List.foldlM_nil, pure_eq_ok]
      constructor
      · rintro ⟨rfl, -⟩
        exact ⟨rfl, rfl⟩
      · rintro ⟨-, rfl⟩
        refine ⟨rfl, ?_⟩
        cases owners with
        | nil => rfl
        | cons owner owners =>
            have hrows : owner.rows = none := hnone
            simp [Progress.checkLast, Owner.check, hrows]
  | cons line lines =>
      rw [List.forall_mem_cons] at hlines
      refine iff_of_false ?_ fun h => List.cons_ne_nil _ _ h.1
      rintro ⟨hrun, -⟩
      obtain ⟨next, hfirst, -⟩ := foldlM_cons_eq_ok.mp hrun
      cases step_eq_ok.mp hfirst with
      | opened hfound => cases hfound.symm.trans hlines.1
      | row _ howners =>
          rw [howners] at hnone
          contradiction

/-- The lines after a record without rows are read exactly as they are declared. -/
theorem foldlM_owned_iff {record : Record} (hnil : record.rows = []) {rows : Option Rows}
    {earlier : List Owner} {filled : List Nat} {lines : List Line}
    (hlines : ∀ line ∈ lines, schema.recognise? line = none) :
    lines.foldlM (step schema scope) ⟨⟨record, rows⟩ :: earlier, filled⟩ = .ok later ∧
        later.checkLast = .ok () ↔
      RowsDeclared rows lines ∧ ∃ values, RowsBecome scope rows lines values ∧
        later = ⟨⟨{ record with rows := values }, rows⟩ :: earlier, filled⟩ := by
  cases rows with
  | some rows =>
      rw [foldlM_rows_iff hlines, hnil, List.length_nil, Nat.zero_add, RowsDeclared, and_assoc]
      rfl
  | none =>
      have hrecord : { record with rows := [] } = record := by rw [← hnil]
      rw [foldlM_unowned_iff rfl hlines, RowsDeclared]
      refine and_congr_right fun _ => ?_
      simp only [RowsBecome, exists_eq_left, hrecord]

/-! ## Sections -/

theorem ofLine_eq_ok_iff (hpart : part.Of schema) {record : Record} :
    Record.ofLine part.found.kind scope part.line = .ok record ↔
      part.found.kind.fields.accepts part.own.length = true ∧
        ∃ values tags, part.found.kind.fields.Becomes scope part.own values ∧
          List.Forall₂ (Tag.Becomes scope) part.tagged tags ∧
            record = ⟨part.found.kind.key, values, [], tags, part.found.kind.keyShown,
              part.line.number⟩ := by
  simp only [Record.ofLine, hpart.cut_eq, bind_eq_ok, mapM_eq_ok, check_eq_ok, pure_eq_ok,
    Bool.not_eq_false', Fields.convert_eq_ok, Tag.read_eq_ok, Fields.Becomes]
  constructor
  · rintro ⟨tags, htags, hwidth, values, hvalues, rfl⟩
    exact ⟨hwidth, values, tags, hvalues, htags, rfl⟩
  · rintro ⟨hwidth, values, tags, hvalues, htags, rfl⟩
    exact ⟨tags, htags, hwidth, values, hvalues, rfl⟩

theorem step_key_eq_ok {line : Line} {found : Schema.Recognised}
    (hline : schema.recognise? line = some found) :
    step schema scope progress line = .ok later ↔
      progress.checkLast = .ok () ∧ checkSlot schema progress.filled found = .ok () ∧
        ∃ record, Record.ofLine found.kind scope line = .ok record ∧
          later = ⟨⟨record, found.kind.rows⟩ :: progress.owners,
            found.index :: progress.filled⟩ := by
  constructor
  · intro h
    cases step_eq_ok.mp h with
    | opened hfound hlast hslot hrecord =>
        cases hline.symm.trans hfound
        exact ⟨hlast, hslot, _, hrecord, rfl⟩
    | row hnone => cases hline.symm.trans hnone
  · rintro ⟨hlast, hslot, record, hrecord, rfl⟩
    exact step_eq_ok.mpr (.opened hline hlast hslot hrecord)

/-- The lines of a section are read exactly when they are as declared and the slot may be
filled; they leave one more record. -/
theorem foldlM_section_iff (hpart : part.Of schema) :
    (part.line :: part.rows).foldlM (step schema scope) progress = .ok later ∧
        later.checkLast = .ok () ↔
      progress.checkLast = .ok () ∧ checkSlot schema progress.filled part.found = .ok () ∧
        part.Declared ∧ ∃ record, part.Becomes scope record ∧
          later = ⟨⟨record, part.found.kind.rows⟩ :: progress.owners,
            part.found.index :: progress.filled⟩ := by
  rw [foldlM_cons_eq_ok]
  constructor
  · rintro ⟨⟨next, hnext, hrows⟩, hcheck⟩
    obtain ⟨hlast, hslot, first, hfirst, rfl⟩ := (step_key_eq_ok hpart.found).mp hnext
    obtain ⟨hwidth, values, tags, hvalues, htags, rfl⟩ := (ofLine_eq_ok_iff hpart).mp hfirst
    obtain ⟨hdeclared, rows, hbecome, rfl⟩ :=
      (foldlM_owned_iff rfl hpart.rows).mp ⟨hrows, hcheck⟩
    have hadmits : ∀ group ∈ part.tagged, group.1.Admits group.2.length := by
      intro group hgroup
      obtain ⟨tag, -, htag⟩ := exists_of_mem_forall₂ htags hgroup
      exact htag.admits
    exact ⟨hlast, hslot, ⟨hwidth, hadmits, hdeclared⟩, _, ⟨rfl, rfl, rfl, hvalues, htags, hbecome⟩,
      rfl⟩
  · rintro ⟨hlast, hslot, ⟨hwidth, -, hdeclared⟩, record, hbecomes, rfl⟩
    obtain ⟨key, values, rows, tags, keyShown, number⟩ := record
    obtain ⟨rfl, rfl, rfl, hvalues, htags, hrows⟩ := hbecomes
    have hfirst := (ofLine_eq_ok_iff hpart).mpr ⟨hwidth, values, tags, hvalues, htags, rfl⟩
    have hnext := (step_key_eq_ok hpart.found).mpr ⟨hlast, hslot, _, hfirst, rfl⟩
    simp only [hnext, Except.ok.injEq, exists_eq_left']
    exact (foldlM_owned_iff rfl hpart.rows).mpr ⟨hdeclared, rows, hrows, rfl⟩

/-- The slots of the sections may be filled in this order after the ones that are filled. -/
def SlotsFit (schema : Schema) : List Nat → List Section → Prop
  | _, [] => True
  | filled, part :: parts =>
    checkSlot schema filled part.found = .ok () ∧ SlotsFit schema (part.found.index :: filled) parts

/-- The record of a section, with the rows that its kind may own. -/
def Section.OwnedBy (scope : Scope) (part : Section) (owner : Owner) : Prop :=
  part.Becomes scope owner.record ∧ owner.rows = part.found.kind.rows

theorem foldlM_sections_iff {parts : List Section} (hparts : ∀ part ∈ parts, part.Of schema) :
    (parts.flatMap fun part => part.line :: part.rows).foldlM (step schema scope) progress =
        .ok later ∧ later.checkLast = .ok () ↔
      progress.checkLast = .ok () ∧ SlotsFit schema progress.filled parts ∧
        (∀ part ∈ parts, part.Declared) ∧ ∃ owners,
          List.Forall₂ (Section.OwnedBy scope) parts owners ∧
            later = ⟨owners.reverse ++ progress.owners,
              (parts.map fun part => part.found.index).reverse ++ progress.filled⟩ := by
  induction parts generalizing progress with
  | nil =>
      rw [List.flatMap_nil, List.foldlM_nil, pure_eq_ok]
      constructor
      · rintro ⟨rfl, hlast⟩
        exact ⟨hlast, trivial, List.forall_mem_nil _, [], .nil, rfl⟩
      · rintro ⟨hlast, -, -, owners, howners, rfl⟩
        cases howners
        exact ⟨rfl, hlast⟩
  | cons part parts ih =>
      rw [List.forall_mem_cons] at hparts
      rw [List.flatMap_cons, List.foldlM_append, bind_eq_ok, List.forall_mem_cons, SlotsFit]
      constructor
      · rintro ⟨⟨next, hnext, hrest⟩, hlater⟩
        obtain ⟨hcheck, hfit, hdeclared, owners, howners, rfl⟩ := (ih hparts.2).mp ⟨hrest, hlater⟩
        obtain ⟨hlast, hslot, hpart, record, hbecomes, rfl⟩ :=
          (foldlM_section_iff hparts.1).mp ⟨hnext, hcheck⟩
        refine ⟨hlast, ⟨hslot, hfit⟩, ⟨hpart, hdeclared⟩, ⟨record, part.found.kind.rows⟩ :: owners,
          .cons ⟨hbecomes, rfl⟩ howners, ?_⟩
        simp
      · rintro ⟨hlast, ⟨hslot, hfit⟩, ⟨hpart, hdeclared⟩, _, howners, rfl⟩
        obtain ⟨⟨record, rows⟩, owners, ⟨hbecomes, hrows⟩, hrest, rfl⟩ :=
          List.forall₂_cons_left_iff.mp howners
        cases hrows
        have hnext := (foldlM_section_iff hparts.1).mpr
          ⟨hlast, hslot, hpart, record, hbecomes, rfl⟩
        simp only [hnext.1, Except.ok.injEq, exists_eq_left']
        refine (ih hparts.2).mpr ⟨hnext.2, hfit, hdeclared, owners, hrest, ?_⟩
        simp

/-! ## Slots -/

theorem le_one_of_allows {occurs : Occurs} {count : Nat} (h : occurs.allows count = true)
    (honce : occurs.repeatable = false) : count ≤ 1 := by
  cases occurs with
  | once => exact (beq_iff_eq.mp h).le
  | optional => exact of_decide_eq_true h
  | atLeastOnce => contradiction
  | any => contradiction

/-- The indices of the slots that are filled in the end, the last one first. -/
def filledBy (filled : List Nat) (parts : List Section) : List Nat :=
  (parts.map fun part => part.found.index).reverse ++ filled

theorem filledBy_cons (filled : List Nat) (part : Section) (parts : List Section) :
    filledBy filled (part :: parts) = filledBy (part.found.index :: filled) parts := by
  simp [filledBy]

/-- The check in front of each section and the counts in the end come to the counts and the
order of all slots. -/
theorem slotsFit_iff {filled : List Nat} {parts : List Section}
    (hparts : ∀ part ∈ parts, part.Of schema)
    (hfilled : schema.ordered = true → filled.Pairwise fun a b => b ≤ a)
    (hallows : ∀ entry ∈ schema.slots.zipIdx,
      entry.1.occurs.allows ((filledBy filled parts).count entry.2) = true) :
    SlotsFit schema filled parts ↔
      (schema.ordered = true → (filledBy filled parts).Pairwise fun a b => b ≤ a) := by
  induction parts generalizing filled with
  | nil => exact iff_of_true trivial hfilled
  | cons part parts ih =>
      rw [List.forall_mem_cons] at hparts
      rw [SlotsFit, filledBy_cons]
      rw [filledBy_cons] at hallows
      constructor
      · rintro ⟨hslot, hfit⟩ hordered
        have hhead := (checkSlot_eq_ok.mp hslot).2
        have hnext : schema.ordered = true → (part.found.index :: filled).Pairwise _ :=
          fun hordered => pairwise_cons_iff.mpr ⟨hhead hordered, hfilled hordered⟩
        exact (ih hparts.2 hnext hallows).mp hfit hordered
      · intro hpairwise
        have hnext : schema.ordered = true →
            (part.found.index :: filled).Pairwise fun a b => b ≤ a :=
          fun hordered => (hpairwise hordered).sublist (List.sublist_append_right _ _)
        refine ⟨checkSlot_eq_ok.mpr ⟨fun hmem => ?_, fun hordered => ?_⟩,
          (ih hparts.2 hnext hallows).mpr hpairwise⟩
        · -- Otherwise the slot is filled here once more than it may be.
          have hslot := hallows _ (Schema.slot_of_recognise? hparts.1.found).1
          by_contra honce
          have hcount : (filledBy (part.found.index :: filled) parts).count part.found.index ≤ 1 :=
            le_one_of_allows hslot (eq_false_of_ne_true honce)
          have hpos := List.count_pos_iff.mpr hmem
          rw [filledBy, List.count_append, List.count_cons_self] at hcount
          omega
        · exact (pairwise_cons_iff.mp (hnext hordered)).1

/-! ## Bodies -/

theorem foldlM_leading_iff {lines : List Line}
    (hlines : ∀ line ∈ lines, schema.recognise? line = none) (header : Nat) :
    lines.foldlM (step schema scope) (start schema header) = .ok later ∧
        later.checkLast = .ok () ↔
      RowsDeclared schema.leadingRows lines ∧ ∃ front,
        Outline.LeadingBecome scope header lines schema.leadingRows front ∧
          later = ⟨(front.map (⟨·, schema.leadingRows⟩)).reverse, []⟩ := by
  unfold start
  cases hleading : schema.leadingRows with
  | some rows =>
      rw [foldlM_owned_iff rfl hlines]
      refine and_congr_right fun _ => ?_
      constructor
      · rintro ⟨values, hvalues, rfl⟩
        exact ⟨_, .some hvalues, rfl⟩
      · rintro ⟨front, hfront, rfl⟩
        cases hfront with
        | some hvalues => exact ⟨_, hvalues, rfl⟩
  | none =>
      rw [foldlM_unowned_iff rfl hlines, RowsDeclared]
      refine and_congr_right fun _ => ?_
      constructor
      · rintro rfl
        exact ⟨[], .none, rfl⟩
      · rintro ⟨front, hfront, rfl⟩
        cases hfront
        rfl

theorem forall₂_becomes_iff {parts : List Section} {records : List Record} :
    List.Forall₂ (Section.Becomes scope) parts records ↔
      ∃ owners, List.Forall₂ (Section.OwnedBy scope) parts owners ∧
        owners.map Owner.record = records := by
  constructor
  · intro h
    induction h with
    | nil => exact ⟨[], .nil, rfl⟩
    | @cons part record parts records hbecomes _ ih =>
        obtain ⟨owners, howners, rfl⟩ := ih
        exact ⟨⟨record, part.found.kind.rows⟩ :: owners, .cons ⟨hbecomes, rfl⟩ howners, rfl⟩
  · rintro ⟨owners, howners, rfl⟩
    exact List.forall₂_map_right_iff.mpr (howners.imp fun _ _ h => h.1)

/-- What is asked of the slots in the end is that their counts and their order are as
declared. -/
theorem checkSlots_iff {outline : Outline} (hparts : ∀ part ∈ outline.sections, part.Of schema) :
    SlotsFit schema [] outline.sections ∧
        checkSlots schema (filledBy [] outline.sections) = .ok () ↔
      (∀ entry ∈ schema.slots.zipIdx,
          entry.1.occurs.allows (outline.indices.count entry.2) = true) ∧
        (schema.ordered = true → outline.indices.Pairwise (· ≤ ·)) := by
  have hfilled : filledBy [] outline.sections = outline.indices.reverse :=
    List.append_nil _
  rw [and_comm, checkSlots_eq_ok]
  simp only [hfilled, List.count_reverse]
  refine and_congr_right fun hallows => ?_
  rw [slotsFit_iff hparts fun _ => .nil, hfilled, List.pairwise_reverse]
  simpa only [hfilled, List.count_reverse] using hallows

theorem records_of_reverse (front : List Record) (rows : Option Rows) (owners : List Owner) :
    ((owners.reverse ++ (front.map (Owner.mk · rows)).reverse).map Owner.record).reverse =
      front ++ owners.map Owner.record := by
  have hfront : (front.map (Owner.mk · rows)).map Owner.record = front := by
    rw [List.map_map]
    exact List.map_id front
  rw [← List.map_reverse, List.reverse_append, List.reverse_reverse, List.reverse_reverse,
    List.map_append, hfront]

/-- A body is read exactly when its outline is as declared and its records are those of the
outline. -/
theorem read_eq_ok_iff {block : Block} {outline : Outline} (houtline : outline.Of schema block.body)
    {records : List Record} :
    read schema scope block = .ok records ↔
      outline.Declared schema ∧ outline.Becomes schema scope block.number records := by
  obtain ⟨hlines, hleading, hparts⟩ := houtline
  have hslots := checkSlots_iff hparts
  simp only [read, bind_eq_ok, mapError_eq_ok, pure_eq_ok, ← hlines, Outline.lines,
    List.foldlM_append]
  constructor
  · rintro ⟨progress, ⟨next, hnext, hrest⟩, _, hlast, _, hcheck, rfl⟩
    obtain ⟨hend, hfit, hdeclared, owners, howners, rfl⟩ :=
      (foldlM_sections_iff hparts).mp ⟨hrest, hlast⟩
    obtain ⟨hrows, front, hfront, rfl⟩ := (foldlM_leading_iff hleading _).mp ⟨hnext, hend⟩
    obtain ⟨hoccurs, horder⟩ := hslots.mp ⟨hfit, hcheck⟩
    exact ⟨⟨hrows, hdeclared, hoccurs, horder⟩, front, _, records_of_reverse _ _ _, hfront,
      forall₂_becomes_iff.mpr ⟨owners, howners, rfl⟩⟩
  · rintro ⟨⟨hrows, hdeclared, hoccurs, horder⟩, front, rest, rfl, hfront, hrest⟩
    obtain ⟨owners, howners, rfl⟩ := forall₂_becomes_iff.mp hrest
    obtain ⟨hfit, hcheck⟩ := hslots.mpr ⟨hoccurs, horder⟩
    obtain ⟨hnext, hend⟩ := (foldlM_leading_iff hleading _).mpr ⟨hrows, front, hfront, rfl⟩
    obtain ⟨hrun, hlast⟩ := (foldlM_sections_iff hparts).mpr
      ⟨hend, hfit, hdeclared, owners, howners, rfl⟩
    exact ⟨_, ⟨_, hnext, hrun⟩, _, hlast, _, hcheck, records_of_reverse _ _ _⟩

/-- Every body has exactly one outline. It is read exactly when its outline is as the schema
declares it and all its fields have values, and then its records are those of the outline. No
field is ever left without a place in the layout of its line. -/
theorem read_exact (schema : Schema) (scope : Scope) (block : Block) :
    ∃ outline : Outline, (∀ other : Outline, other.Of schema block.body ↔ other = outline) ∧
      ((∃ records, read schema scope block = .ok records) ↔
        outline.Declared schema ∧ outline.Convertible schema scope) ∧
      (∀ records, read schema scope block = .ok records ↔
        outline.Declared schema ∧ outline.Becomes schema scope block.number records) ∧
      ∀ number position text,
        read schema scope block ≠ .error ⟨number, .surplusField position text⟩ := by
  have houtline := outlineOf_of schema block.body
  refine ⟨outlineOf schema block.body, fun other => outline_of_iff, ?_,
    fun records => read_eq_ok_iff houtline, fun number position text => read_ne_surplusField⟩
  simp only [read_eq_ok_iff houtline, exists_and_left]
  exact and_congr_right fun hdeclared => hdeclared.exists_becomes_iff block.number

end Body

end CadTimeline
