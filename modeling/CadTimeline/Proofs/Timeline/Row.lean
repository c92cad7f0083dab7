import CadTimeline.Proofs.Timeline.Split
import CadTimeline.Text.Lines
import Mathlib.Data.List.Basic

/-!
# Written rows

A row of fields is split into just these fields, if each bare one can stand bare. So is a row
of texts, each quoted if it has to be. The one exception is a bare text at the start that
begins with a byte order mark: the mark is taken for that of the line.
-/

namespace CadTimeline

open Text

namespace Field

/-- The field as it stands in a line. -/
def source (f : Field) : String :=
  if f.quoted then String.ofList (quote f.text.toList) else f.text

/-- A bare field holds a text that can stand bare. -/
def IsWritable (f : Field) : Prop :=
  f.quoted = false → needsQuotes f.text.toList = false

/-- The characters of a line of fields without its line feed. -/
def lineText (fields : List Field) : List Char :=
  (String.intercalate ", " (fields.map source)).toList

/-- What follows the first field of a line. -/
def lineRest : List Field → List Char
  | [] => []
  | f :: fields => ',' :: ' ' :: lineText (f :: fields)

theorem lineText_cons (f : Field) (fields : List Field) :
    lineText (f :: fields) = f.source.toList ++ lineRest fields := by
  cases fields with
  | nil => simp [lineText, lineRest]
  | cons next fields =>
      rw [lineText, List.map_cons, List.map_cons, String.intercalate_cons_cons]
      simp [lineRest, lineText]

/-- The field that a written text is read as. -/
def ofText (text : String) : Field :=
  ⟨text, needsQuotes text.toList⟩

/-- The characters of a row without its line feed. -/
def rowText (texts : List String) : List Char :=
  (String.intercalate ", " (texts.map Text.quoted)).toList

theorem rowText_eq (texts : List String) : rowText texts = lineText (texts.map ofText) := by
  rw [rowText, lineText, List.map_map]
  rfl

theorem isWritable_ofText (text : String) : (ofText text).IsWritable := by
  intro hbare
  exact hbare

theorem isWritable_of_mem_ofText {texts : List String} : ∀ f ∈ texts.map ofText, f.IsWritable := by
  rw [List.forall_mem_map]
  exact fun text _ => isWritable_ofText text

/-! ## Bare texts -/

theorem isDelimiter_eq_false {cs : List Char} (h : needsQuotes cs = false) :
    ∀ c ∈ cs, isDelimiter c = false := by
  intro c hc
  simp only [needsQuotes, Bool.or_eq_false_iff, List.any_eq_false] at h
  exact Bool.eq_false_iff.mpr (h.1.2 c hc)

theorem trim_eq_self {cs : List Char} (h : needsQuotes cs = false) : trim cs = cs := by
  simp only [needsQuotes, Bool.or_eq_false_iff, bne_eq_false_iff_eq] at h
  exact h.2

theorem ne_nil_of_bare {cs : List Char} (h : needsQuotes cs = false) : cs ≠ [] := by
  rintro rfl
  contradiction

theorem source_of_bare {f : Field} (h : f.quoted = false) : f.source = f.text := by
  rw [source, if_neg (Bool.eq_false_iff.mp h)]

theorem source_of_quoted {f : Field} (h : f.quoted = true) :
    f.source.toList = quote f.text.toList := by
  rw [source, if_pos h, String.toList_ofList]

/-! ## Lines of fields -/

/-- A field that can be written is spelled by what is written, blanks in front of it or not. -/
theorem IsWritable.spelled {f : Field} (hf : f.IsWritable) {blanks : List Char}
    (hblanks : ∀ c ∈ blanks, isBlank c = true) : f.Spelled (blanks ++ f.source.toList) := by
  cases hquoted : f.quoted with
  | true =>
      have hspelled := Spelled.quoted f.text.toList hblanks (List.forall_mem_nil _)
      rwa [List.append_nil, ← source_of_quoted hquoted, String.ofList_toList, ← hquoted] at hspelled
  | false =>
      have hbare := hf hquoted
      have hcs : ∀ c ∈ blanks ++ f.text.toList, isDelimiter c = false :=
        List.forall_mem_append.mpr
          ⟨fun c hc => isDelimiter_of_isBlank (hblanks c hc), isDelimiter_eq_false hbare⟩
      have htrim : trim (blanks ++ f.text.toList) = f.text.toList := by
        rw [trim_blanks_append hblanks, trim_eq_self hbare]
      have hcontent := trim_ne_nil_iff.mp (htrim ▸ ne_nil_of_bare hbare)
      have hspelled := Spelled.bare hcs hcontent
      rw [htrim, String.ofList_toList, ← hquoted] at hspelled
      rwa [source_of_bare hquoted]

theorem isBlank_of_mem_space : ∀ c ∈ [' '], isBlank c = true :=
  List.forall_mem_singleton.mpr (by decide)

theorem spelledLine_lineText {f : Field} {fields : List Field}
    (h : ∀ g ∈ f :: fields, g.IsWritable) {blanks : List Char}
    (hblanks : ∀ c ∈ blanks, isBlank c = true) :
    SpelledLine (f :: fields) (blanks ++ lineText (f :: fields)) := by
  induction fields generalizing f blanks with
  | nil =>
      have hf := (h f List.mem_cons_self).spelled hblanks
      rw [lineText_cons, ← List.append_assoc]
      exact .last hf (.inl rfl)
  | cons next fields ih =>
      rw [List.forall_mem_cons] at h
      rw [lineText_cons, ← List.append_assoc]
      exact .comma (h.1.spelled hblanks) (ih h.2 isBlank_of_mem_space)

theorem follows_lineRest {fields : List Field} (h : ∀ f ∈ fields, f.IsWritable) (n : Nat) :
    Follows n fields (lineRest fields) := by
  cases fields with
  | nil => exact .inl ⟨rfl, .inl rfl⟩
  | cons f fields =>
      have hspelled := spelledLine_lineText h isBlank_of_mem_space
      exact .inr ⟨_, rfl, (spelledLine_iff.mp hspelled).1⟩

/-! ## Whole lines -/

/-- A line that starts with no mark is split into its fields. -/
theorem splitLine_lineText {fields : List Field} (hne : fields ≠ [])
    (h : ∀ f ∈ fields, f.IsWritable) (hmark : (lineText fields).head? ≠ some '\uFEFF') :
    splitLine (lineText fields) = .ok fields := by
  obtain ⟨f, rest, rfl⟩ := List.exists_cons_of_ne_nil hne
  have hspelled := spelledLine_lineText h (List.forall_mem_nil _)
  rw [List.nil_append, ← dropMark_of_head? hmark] at hspelled
  exact (splitLine_eq_fields_iff.mpr hspelled).1

/-- The text is bare and starts with a byte order mark. -/
def IsMarked (text : String) : Prop :=
  text.toList.head? = some '\uFEFF' ∧ needsQuotes text.toList = false

/-- The first text of the row is marked. -/
def IsMarkedRow : List String → Prop
  | [] => False
  | text :: _ => IsMarked text

instance (text : String) : Decidable (IsMarked text) :=
  inferInstanceAs (Decidable (_ ∧ _))

instance : DecidablePred IsMarkedRow
  | [] => .isFalse id
  | text :: _ => inferInstanceAs (Decidable (IsMarked text))

/-- The number of byte order marks in some texts. -/
def marks (texts : List String) : Nat :=
  (texts.flatMap String.toList).count '\uFEFF'

@[simp] theorem marks_cons (text : String) (texts : List String) :
    marks (text :: texts) = text.toList.count '\uFEFF' + marks texts := by
  rw [marks, List.flatMap_cons, List.count_append, marks]

@[simp] theorem marks_append (texts others : List String) :
    marks (texts ++ others) = marks texts + marks others := by
  rw [marks, List.flatMap_append, List.count_append, marks, marks]

theorem marks_eq_zero {texts : List String} (h : ∀ text ∈ texts, '\uFEFF' ∉ text.toList) :
    marks texts = 0 := by
  induction texts with
  | nil => rfl
  | cons text texts ih =>
      rw [List.forall_mem_cons] at h
      rw [marks_cons, List.count_eq_zero_of_not_mem h.1, ih h.2]

theorem marks_drop_le (n : Nat) (texts : List String) : marks (texts.drop n) ≤ marks texts := by
  rw [← List.take_append_drop n texts, marks_append, List.take_append_drop]
  exact Nat.le_add_left _ _

theorem head?_source {f : Field} (hf : f.IsWritable)
    (h : f.quoted = false → f.text.toList.head? ≠ some '\uFEFF') (rest : List Char) :
    (f.source.toList ++ rest).head? ≠ some '\uFEFF' := by
  cases hquoted : f.quoted with
  | true =>
      rw [source_of_quoted hquoted, quote]
      simp
  | false =>
      rw [source_of_bare hquoted, List.head?_append_of_ne_nil _ (ne_nil_of_bare (hf hquoted))]
      exact h hquoted

/-- A row that starts with no mark is split into its texts. -/
theorem splitLine_row {text : String} {texts : List String} (h : ¬IsMarked text) :
    splitLine (rowText (text :: texts)) = .ok ((text :: texts).map ofText) := by
  have hne : (text :: texts).map ofText ≠ [] := List.cons_ne_nil _ _
  rw [rowText_eq]
  refine splitLine_lineText hne isWritable_of_mem_ofText ?_
  rw [List.map_cons, lineText_cons]
  exact head?_source (isWritable_ofText text) (fun hbare hhead => h ⟨hhead, hbare⟩) _

/-- A row that starts with a mark loses it, and the blanks behind it. -/
theorem splitLine_marked {text : String} {texts : List String} (h : IsMarked text) :
    splitLine (rowText (text :: texts)) =
      checkVacant (⟨String.ofList (trim text.toList.tail), false⟩ :: texts.map ofText) := by
  obtain ⟨hhead, hbare⟩ := h
  obtain ⟨rest, htext⟩ : ∃ rest, text.toList = '\uFEFF' :: rest := List.head?_eq_some_iff.mp hhead
  have hplain : ∀ c ∈ rest.reverse, isDelimiter c = false := by
    intro c hc
    exact isDelimiter_eq_false hbare c (htext ▸ List.mem_cons_of_mem _ (List.mem_reverse.mp hc))
  have hfollows : Follows 1 (texts.map ofText) (lineRest (texts.map ofText)) :=
    follows_lineRest isWritable_of_mem_ofText 1
  have hread := splitPlain_of_taken (taken_ofPlain hplain) hfollows
  rw [ofPlain, List.reverse_reverse] at hread
  rw [splitLine, rowText_eq, List.map_cons, lineText_cons, source_of_bare hbare, ofText, htext,
    List.cons_append, dropMark, hread]
  rfl

/-! ## Written rows -/

theorem length_le_doubleQuotes (cs : List Char) : cs.length ≤ (doubleQuotes cs).length := by
  induction cs with
  | nil => exact Nat.le_refl _
  | cons c cs ih =>
      rw [doubleQuotes]
      split <;> simp only [List.length_cons] <;> omega

/-- Quotes are added where they are needed and nowhere else. -/
theorem quoted_eq_self_iff {text : String} :
    Text.quoted text = text ↔ needsQuotes text.toList = false := by
  unfold Text.quoted
  split
  · rename_i hneeds
    rw [hneeds, ← String.toList_inj, String.toList_ofList]
    refine iff_of_false (fun h => ?_) nofun
    have hlength := congrArg List.length h
    have hle := length_le_doubleQuotes text.toList
    simp only [quote, List.length_cons, List.length_append] at hlength
    omega
  · rename_i hneeds
    exact iff_of_true rfl (Bool.eq_false_iff.mpr hneeds)

theorem ofText_eq (text : String) : ofText text = ⟨text, decide (Text.quoted text ≠ text)⟩ := by
  simp [ofText, quoted_eq_self_iff]

/-- A row of texts, each quoted if it has to be, is split into the same texts, and the quoted
fields are those to which quotes have been added. The row may not start with a byte order mark. -/
theorem splitLine_written {text : String} {texts : List String}
    (hmark : text.toList.head? ≠ some '\uFEFF') :
    splitLine (String.intercalate ", " ((text :: texts).map Text.quoted)).toList =
      .ok ((text :: texts).map fun t => ⟨t, decide (Text.quoted t ≠ t)⟩) := by
  have hrow : splitLine (rowText (text :: texts)) = .ok ((text :: texts).map ofText) :=
    splitLine_row fun h => hmark h.1
  rwa [rowText, funext ofText_eq] at hrow

/-- Texts that would be lost, cut, trimmed or read as two without their quotes, and two texts
that need none. -/
theorem splitLine_hardRow :
    "\ta".toList.head? ≠ some '\uFEFF' ∧
    splitLine (String.intercalate ", " (["\ta", "", "b, c # d", "say \"hi\"", "e f", "g\r",
      "\uFEFFh"].map Text.quoted)).toList =
        .ok [⟨"\ta", true⟩, ⟨"", true⟩, ⟨"b, c # d", true⟩, ⟨"say \"hi\"", true⟩,
          ⟨"e f", false⟩, ⟨"g\r", true⟩, ⟨"\uFEFFh", false⟩] :=
  ⟨by decide, splitLine_written (by decide)⟩

end Field

/-! ## Files of rows -/

open CadTimeline.Field

theorem mem_source {c : Char} {f : Field} (h : c ∈ f.source.toList) :
    c ∈ f.text.toList ∨ c = '"' := by
  cases hquoted : f.quoted with
  | true =>
      rw [source_of_quoted hquoted, quote] at h
      simp only [List.cons_append, List.mem_cons, List.mem_append, List.not_mem_nil, or_false] at h
      rcases h with h | h | h
      · exact .inr h
      · exact .inl (mem_doubleQuotes_iff.mp h)
      · exact .inr h
  | false => exact .inl (source_of_bare hquoted ▸ h)

theorem newline_notMem_lineText {fields : List Field} (h : ∀ f ∈ fields, '\n' ∉ f.text.toList) :
    '\n' ∉ lineText fields := by
  have hsource : ∀ f : Field, '\n' ∉ f.text.toList → '\n' ∉ f.source.toList := by
    intro f hf hmem
    rcases mem_source hmem with hmem | hmem
    · exact hf hmem
    · contradiction
  induction fields with
  | nil => simp [lineText]
  | cons f fields ih =>
      rw [List.forall_mem_cons] at h
      rw [lineText_cons, List.mem_append, not_or]
      refine ⟨hsource f h.1, ?_⟩
      cases fields with
      | nil => simp [lineRest]
      | cons next fields => simpa [lineRest] using ih h.2

theorem isBlank_of_getLast?_source {f : Field} (hf : f.IsWritable) {c : Char}
    (h : f.source.toList.getLast? = some c) : isBlank c = false := by
  cases hquoted : f.quoted with
  | true =>
      rw [source_of_quoted hquoted, quote, List.getLast?_append] at h
      cases h
      decide
  | false =>
      rw [source_of_bare hquoted, ← trim_eq_self (hf hquoted)] at h
      exact isBlank_of_getLast?_trim h

theorem source_ne_nil {f : Field} (hf : f.IsWritable) : f.source.toList ≠ [] := by
  cases hquoted : f.quoted with
  | true =>
      rw [source_of_quoted hquoted]
      exact List.cons_ne_nil _ _
  | false =>
      rw [source_of_bare hquoted]
      exact ne_nil_of_bare (hf hquoted)

/-- A line does not end in a blank, so that nothing of it is taken for part of its line
end. -/
theorem isBlank_of_getLast?_lineText {fields : List Field} (hfields : ∀ f ∈ fields, f.IsWritable)
    {c : Char} (h : (lineText fields).getLast? = some c) : isBlank c = false := by
  induction fields with
  | nil => simp [lineText] at h
  | cons f fields ih =>
      rw [List.forall_mem_cons] at hfields
      rw [lineText_cons] at h
      cases fields with
      | nil =>
          rw [lineRest, List.append_nil] at h
          exact isBlank_of_getLast?_source hfields.1 h
      | cons next fields =>
          have hne : lineText (next :: fields) ≠ [] := by
            rw [lineText_cons]
            exact List.append_ne_nil_of_left_ne_nil
              (source_ne_nil (hfields.2 next List.mem_cons_self)) _
          apply ih hfields.2
          rw [← h, lineRest, List.getLast?_append_of_ne_nil _ (List.cons_ne_nil _ _),
            List.getLast?_cons_of_ne_nil (List.cons_ne_nil _ _), List.getLast?_cons_of_ne_nil hne]

theorem dropReturn_lineText {fields : List Field} (h : ∀ f ∈ fields, f.IsWritable) :
    dropReturn (lineText fields) = lineText fields := by
  rw [dropReturn, if_neg]
  intro hlast
  have hblank := isBlank_of_getLast?_lineText h hlast
  contradiction

/-- The lines of a text of lines are these lines. -/
theorem lines_lineTexts {rows : List (List Field)}
    (h : ∀ row ∈ rows, ∀ f ∈ row, f.IsWritable ∧ '\n' ∉ f.text.toList) :
    lines (rows.flatMap fun row => lineText row ++ ['\n']) = rows.map lineText := by
  have hsplit : (rows.flatMap fun row => lineText row ++ ['\n']).splitOn '\n' =
      rows.map lineText ++ [[]] := by
    induction rows with
    | nil => rfl
    | cons row rows ih =>
        rw [List.forall_mem_cons] at h
        have hnewline := newline_notMem_lineText fun f hf => (h.1 f hf).2
        rw [List.flatMap_cons, List.append_assoc, List.singleton_append,
          List.splitOn_append_cons_self_of_not_mem hnewline, ih h.2]
        rfl
  have hreturn : (rows.map lineText).map dropReturn = rows.map lineText := by
    rw [List.map_map]
    exact List.map_congr_left fun row hrow => dropReturn_lineText fun f hf => (h row hrow f hf).1
  unfold lines lastLine
  dsimp only
  rw [hsplit, List.dropLast_concat, hreturn, List.getLast?_concat]
  simp

/-- The lines of a file of rows are the rows. -/
theorem lines_rows {rows : List (List String)}
    (h : ∀ row ∈ rows, ∀ text ∈ row, '\n' ∉ text.toList) :
    lines (rows.flatMap fun row => rowText row ++ ['\n']) = rows.map rowText := by
  have hfields : ∀ row ∈ rows.map fun row => row.map ofText, ∀ f ∈ row,
      f.IsWritable ∧ '\n' ∉ f.text.toList := by
    simp only [List.forall_mem_map]
    exact fun row hrow text htext => ⟨isWritable_ofText text, h row hrow text htext⟩
  have hlines := lines_lineTexts hfields
  have hrow : rowText = fun row => lineText (row.map ofText) := funext rowText_eq
  rw [List.flatMap_map, List.map_map] at hlines
  rw [hrow]
  exact hlines

end CadTimeline
