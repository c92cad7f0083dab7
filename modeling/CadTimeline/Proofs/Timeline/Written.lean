import CadTimeline.Proofs.Timeline.Append
import CadTimeline.Proofs.Timeline.Row

/-!
# Written sources

A source that is written line by line, bare fields only where the text can stand bare, has
these lines. If the first line opens a block and no other line ends it, the source is this
block.
-/

namespace CadTimeline

open CadTimeline.Field

/-! ## Lines -/

/-- Fields that make a line: there is one, each can be written as it is, and the first one is
no bare text with a byte order mark at its start. -/
structure IsSourceLine (fields : List Field) : Prop where
  ne_nil : fields ≠ []
  writable : ∀ f ∈ fields, f.IsWritable
  single : ∀ f ∈ fields, '\n' ∉ f.text.toList
  unmarked : ∀ f ∈ fields.head?, f.quoted = false → f.text.toList.head? ≠ some '\uFEFF'

/-- The text of a source with these lines. -/
def sourceText (rows : List (List Field)) : List Char :=
  rows.flatMap fun fields => lineText fields ++ ['\n']

theorem IsSourceLine.splitLine {fields : List Field} (h : IsSourceLine fields) :
    splitLine (lineText fields) = .ok fields := by
  refine splitLine_lineText h.ne_nil h.writable ?_
  obtain ⟨f, rest, rfl⟩ := List.exists_cons_of_ne_nil h.ne_nil
  rw [lineText_cons]
  exact head?_source (h.writable f List.mem_cons_self) (h.unmarked f rfl) _

theorem IsSourceLine.read {fields : List Field} (h : IsSourceLine fields) (number : Nat) :
    Line.read number (lineText fields) = some (.ok ⟨number, fields⟩) := by
  obtain ⟨f, rest, rfl⟩ := List.exists_cons_of_ne_nil h.ne_nil
  rw [Line.read, h.splitLine]

/-- Lines with these fields, numbered from here on. -/
def numbered (number : Nat) : List (List Field) → List Line
  | [] => []
  | fields :: rows => ⟨number, fields⟩ :: numbered (number + 1) rows

theorem map_fields_numbered (number : Nat) (rows : List (List Field)) :
    (numbered number rows).map Line.fields = rows := by
  induction rows generalizing number with
  | nil => rfl
  | cons fields rows ih => rw [numbered, List.map_cons, ih]

/-- The lines of a written source are those that were written. -/
theorem Line.ofSource_sourceText {rows : List (List Field)} (h : ∀ row ∈ rows, IsSourceLine row) :
    Line.ofSource (sourceText rows) = (numbered 1 rows).map .ok := by
  have hfrom : ∀ number,
      Line.readFrom number (rows.map lineText) = (numbered number rows).map .ok := by
    induction rows with
    | nil => exact fun _ => rfl
    | cons row rows ih =>
        rw [List.forall_mem_cons] at h
        intro number
        rw [List.map_cons, Line.readFrom, h.1.read, ih h.2]
        rfl
  have hlines := lines_lineTexts fun row hrow f hf =>
    ⟨(h row hrow).writable f hf, (h row hrow).single f hf⟩
  rw [Line.ofSource_eq, sourceText, hlines]
  exact hfrom 1

/-! ## One block -/

namespace Block

theorem opens_congr {line other : Line} (h : line.fields.head? = other.fields.head?)
    (current : Keyword) : opens current line = opens current other := by
  have hkeyword : keyword? line = keyword? other := by
    unfold keyword?
    cases hline : line.fields with
    | nil =>
        rw [hline, List.head?_nil, eq_comm, List.head?_eq_none_iff] at h
        rw [h]
    | cons field rest =>
        rw [hline, List.head?_cons, eq_comm, List.head?_eq_some_iff] at h
        obtain ⟨others, hother⟩ := h
        rw [hother]
  rw [opens, opens, hkeyword]

/-- A header and lines that do not end its block are this block. -/
theorem entries_single {header : Line} {keyword : Keyword} (hheader : keyword? header = some keyword)
    {lines : List Line} (hlines : ∀ line ∈ lines, opens keyword line = false) :
    entries (.ok header :: lines.map .ok) = [.block ⟨keyword, header, lines⟩] := by
  have hbody : ∀ line ∈ lines, bodyLine? keyword (.ok line) = some line := by
    intro line hline
    rw [bodyLine?, hlines line hline]
    rfl
  have hall : ∀ item ∈ lines.map (Except.ok : Line → Item),
      (bodyLine? keyword item).isSome = true := by
    rw [List.forall_mem_map]
    intro line hline
    rw [hbody line hline]
    rfl
  have hkept : (lines.map Except.ok).filterMap (bodyLine? keyword) = lines := by
    rw [List.filterMap_map]
    exact (List.filterMap_congr hbody).trans List.filterMap_some
  rw [entries_header hheader, List.takeWhile_eq_self_iff.mpr hall,
    List.dropWhile_eq_nil_iff.mpr hall, entries, hkept]

/-- A written source of one block is this block. -/
theorem ofSource_single {source : String} {header : List Field} {body : List (List Field)}
    (hsource : source.toList = sourceText (header :: body))
    (hrows : ∀ row ∈ header :: body, IsSourceLine row) {keyword : Keyword}
    (hheader : keyword? ⟨1, header⟩ = some keyword)
    (hbody : ∀ row ∈ body, opens keyword ⟨0, row⟩ = false) :
    ∃ lines, ofSource source = .ok [⟨keyword, ⟨1, header⟩, lines⟩] ∧
      lines.map Line.fields = body := by
  have hfields := map_fields_numbered 2 body
  have hlines : ∀ line ∈ numbered 2 body, opens keyword line = false := by
    intro line hline
    have hrow : line.fields ∈ body := hfields ▸ List.mem_map_of_mem hline
    have hopens := @opens_congr line ⟨0, line.fields⟩ rfl keyword
    rw [hopens]
    exact hbody line.fields hrow
  refine ⟨numbered 2 body, ?_, hfields⟩
  rw [ofSource, hsource, Line.ofSource_sourceText hrows, numbered, List.map_cons,
    entries_single hheader hlines]
  rfl

end Block

end CadTimeline
