import CadTimeline.Proofs.Schema.Keys
import CadTimeline.Proofs.Timeline.Source

/-!
# Rows read as lines

The lines that a file of written rows is read as: one for each row, with its texts, but
for rows that start with a bare byte order mark. Such a row loses the mark, and it may be
lost altogether.
-/

namespace CadTimeline

open CadTimeline.Field

/-! ## One row -/

theorem Line.read_row {row : List String} (hne : row ≠ []) (hmark : ¬IsMarkedRow row)
    (number : Nat) : Line.read number (rowText row) = some (.ok ⟨number, row.map ofText⟩) := by
  obtain ⟨text, texts, rfl⟩ := List.exists_cons_of_ne_nil hne
  rw [Line.read, splitLine_row hmark]
  rfl

theorem map_text_ofText (row : List String) : (row.map ofText).map Field.text = row := by
  rw [List.map_map]
  exact List.map_id row

theorem marks_pos {row : List String} (hmark : IsMarkedRow row) : 0 < marks row := by
  cases row with
  | nil => exact absurd hmark id
  | cons text texts =>
      rw [marks_cons]
      exact Nat.add_pos_left (List.count_pos_iff.mpr (List.mem_of_mem_head? hmark.1)) _

/-- What a marked row is read as has fewer marks. -/
theorem Line.marks_lt_of_read {row : List String} (hmark : IsMarkedRow row) {number : Nat}
    {line : Line} (h : Line.read number (rowText row) = some (.ok line)) :
    marks (line.fields.map Field.text) < marks row := by
  obtain ⟨hsplit, -⟩ := Line.read_eq_some_ok h
  cases row with
  | nil => exact absurd hmark id
  | cons text texts =>
      have hcount : (Text.trim text.toList.tail).count '\uFEFF' < text.toList.count '\uFEFF' := by
        obtain ⟨rest, htext⟩ := List.head?_eq_some_iff.mp hmark.1
        rw [htext, List.tail_cons, List.count_cons_self]
        exact Nat.lt_succ_of_le ((Text.trim_sublist rest).count_le _)
      rw [splitLine_marked hmark] at hsplit
      rcases checkVacant_eq_ok_iff.mp hsplit with ⟨hfields, -⟩ | ⟨hfields, -⟩
      · rw [hfields, List.map_cons, map_text_ofText, marks_cons, marks_cons, String.toList_ofList]
        omega
      · rw [hfields, List.map_nil]
        exact marks_pos hmark

/-- A single text can always be read. -/
theorem Line.read_single (text : String) (number : Nat) (fault : Line.Fault) :
    Line.read number (rowText [text]) ≠ some (.error fault) := by
  by_cases hmark : IsMarked text
  · unfold Line.read
    rw [splitLine_marked hmark, List.map_nil]
    cases hvacant : isVacant ⟨String.ofList (Text.trim text.toList.tail), false⟩ with
    | true => simp [checkVacant, hvacant]
    | false => simp [checkVacant, hvacant]
  · rw [Line.read_row (List.cons_ne_nil _ _) hmark]
    simp

/-! ## All rows -/

/-- What rows are read as, from a line on. -/
def readRows : Nat → List (List String) → List (Except Line.Fault Line)
  | _, [] => []
  | number, row :: rows => (Line.read number (rowText row)).toList ++ readRows (number + 1) rows

variable {number : Nat} {rows others : List (List String)} {lines : List Line} {line : Line}

theorem Line.ofSource_rows (h : ∀ row ∈ rows, ∀ text ∈ row, '\n' ∉ text.toList) :
    Line.ofSource (rows.flatMap fun row => rowText row ++ ['\n']) = readRows 1 rows := by
  have hfrom : ∀ number, Line.readFrom number (rows.map rowText) = readRows number rows := by
    clear h
    induction rows with
    | nil => exact fun _ => rfl
    | cons row rows ih =>
        intro number
        rw [List.map_cons, Line.readFrom, readRows, ih]
  rw [Line.ofSource_eq, lines_rows h]
  exact hfrom 1

theorem readRows_append (number : Nat) (rows others : List (List String)) :
    readRows number (rows ++ others) =
      readRows number rows ++ readRows (number + rows.length) others := by
  induction rows generalizing number with
  | nil => rfl
  | cons row rows ih =>
      rw [List.cons_append, readRows, readRows, ih, List.append_assoc, List.length_cons,
        Nat.add_right_comm, Nat.add_assoc]

theorem number_of_mem_readRows (h : .ok line ∈ readRows number rows) :
    number ≤ line.number ∧ line.number < number + rows.length := by
  induction rows generalizing number with
  | nil => exact absurd h List.not_mem_nil
  | cons row rows ih =>
      rw [List.length_cons]
      rcases List.mem_append.mp h with h | h
      · rw [Option.mem_toList] at h
        have hnumber := (Line.read_eq_some_ok h).2
        omega
      · have hnumber := ih h
        omega

/-- The lines that rows are read as. -/
inductive RowsRead : List (List String) → List Line → Prop
  | nil : RowsRead [] []
  | kept {row : List String} {line : Line} {rows : List (List String)} {lines : List Line}
      (hmark : ¬IsMarkedRow row) (hfields : line.fields = row.map ofText)
      (h : RowsRead rows lines) : RowsRead (row :: rows) (line :: lines)
  | changed {row : List String} {line : Line} {rows : List (List String)} {lines : List Line}
      (hmark : IsMarkedRow row) (hfewer : marks (line.fields.map Field.text) < marks row)
      (h : RowsRead rows lines) : RowsRead (row :: rows) (line :: lines)
  | lost {row : List String} {rows : List (List String)} {lines : List Line}
      (hmark : IsMarkedRow row) (h : RowsRead rows lines) : RowsRead (row :: rows) lines

theorem rowsRead_of_readRows (hne : ∀ row ∈ rows, row ≠ [])
    (h : readRows number rows = lines.map .ok) : RowsRead rows lines := by
  induction rows generalizing number lines with
  | nil =>
      rw [readRows, eq_comm, List.map_eq_nil_iff] at h
      rw [h]
      exact .nil
  | cons row rows ih =>
      rw [List.forall_mem_cons] at hne
      rw [readRows] at h
      by_cases hmark : IsMarkedRow row
      · cases hread : Line.read number (rowText row) with
        | none =>
            rw [hread] at h
            exact .lost hmark (ih hne.2 h)
        | some item =>
            rw [hread] at h
            obtain ⟨line, rest, rfl, rfl, hrest⟩ := List.map_eq_cons_iff.mp h.symm
            exact .changed hmark (Line.marks_lt_of_read hmark hread) (ih hne.2 hrest.symm)
      · rw [Line.read_row hne.1 hmark] at h
        obtain ⟨line, rest, rfl, hline, hrest⟩ := List.map_eq_cons_iff.mp h.symm
        cases hline
        exact .kept hmark rfl (ih hne.2 hrest.symm)

/-- Rows that start with no mark, and single texts, can be read. -/
theorem exists_lines_readRows
    (h : ∀ row ∈ rows, row ≠ [] ∧ (¬IsMarkedRow row ∨ ∃ text, row = [text])) (number : Nat) :
    ∃ lines : List Line, readRows number rows = lines.map .ok := by
  induction rows generalizing number with
  | nil => exact ⟨[], rfl⟩
  | cons row rows ih =>
      rw [List.forall_mem_cons] at h
      obtain ⟨⟨hne, hrow⟩, hrows⟩ := h
      obtain ⟨rest, hrest⟩ := ih hrows (number + 1)
      rw [readRows, hrest]
      rcases hrow with hmark | ⟨text, rfl⟩
      · rw [Line.read_row hne hmark]
        exact ⟨_ :: rest, rfl⟩
      · cases hread : Line.read number (rowText [text]) with
        | none => exact ⟨rest, rfl⟩
        | some item =>
            cases item with
            | ok line => exact ⟨line :: rest, rfl⟩
            | error fault => exact absurd hread (Line.read_single text number fault)

namespace RowsRead

theorem map_fields (h : RowsRead rows lines) (hrows : ∀ row ∈ rows, ¬IsMarkedRow row) :
    lines.map Line.fields = rows.map fun row => row.map ofText := by
  induction h with
  | nil => rfl
  | kept _ hfields _ ih =>
      rw [List.map_cons, List.map_cons, hfields, ih (List.forall_mem_cons.mp hrows).2]
  | changed hmark => exact absurd hmark (List.forall_mem_cons.mp hrows).1
  | lost hmark => exact absurd hmark (List.forall_mem_cons.mp hrows).1

/-- Marks are only lost, and they are where a row is marked. -/
theorem marks_le (h : RowsRead rows lines) :
    marks (lines.flatMap fun line => line.fields.map Field.text) ≤ marks rows.flatten ∧
      (marks rows.flatten ≤ marks (lines.flatMap fun line => line.fields.map Field.text) →
        ∀ row ∈ rows, ¬IsMarkedRow row) := by
  induction h with
  | nil => exact ⟨Nat.le_refl _, fun _ => List.forall_mem_nil _⟩
  | kept hmark hfields _ ih =>
      rw [List.flatMap_cons, List.flatten_cons, marks_append, marks_append, hfields,
        map_text_ofText]
      exact ⟨by omega, fun hge => List.forall_mem_cons.mpr ⟨hmark, ih.2 (by omega)⟩⟩
  | changed hmark hfewer _ ih =>
      rw [List.flatMap_cons, List.flatten_cons, marks_append, marks_append]
      exact ⟨by omega, fun hge => by omega⟩
  | lost hmark _ ih =>
      have hpos := marks_pos hmark
      rw [List.flatten_cons, marks_append]
      exact ⟨by omega, fun hge => by omega⟩

/-- A row that starts with a key is read as a line with that key. -/
theorem countP_le {schema : Schema} (hreadable : schema.IsReadable) (h : RowsRead rows lines) :
    rows.countP schema.opens ≤ lines.countP fun line => (schema.recognise? line).isSome := by
  induction h with
  | nil => exact Nat.le_refl _
  | kept _ hfields _ ih =>
      rw [List.countP_cons, List.countP_cons, hreadable.isSome_recognise? hfields]
      exact Nat.add_le_add_right ih _
  | changed hmark _ _ ih =>
      rw [List.countP_cons, hreadable.opens_of_isMarkedRow hmark, List.countP_cons]
      exact ih.trans (Nat.le_add_right _ _)
  | lost hmark _ ih =>
      rw [List.countP_cons, hreadable.opens_of_isMarkedRow hmark]
      exact ih

end RowsRead

end CadTimeline
