import CadTimeline.Proofs.Timeline.Append

/-!
# Lines and blocks

What is read of a source is grouped into blocks without loss, and there is one way to do it:
a block begins at a keyword and goes on up to the next line that opens a block for it or
cannot be split. A source is read exactly when all its lines can be split and the first of
them that has content begins with a keyword.
-/

namespace CadTimeline

namespace Block

theorem keyword?_eq_some {line : Line} {keyword : Keyword} :
    keyword? line = some keyword ↔ ∃ rest, line.fields = ⟨keyword.word, false⟩ :: rest := by
  unfold keyword?
  constructor
  · intro h
    split at h
    · contradiction
    · rename_i field rest hfields
      obtain ⟨text, quoted⟩ := field
      split at h
      · contradiction
      · rename_i hquoted
        rw [Bool.not_eq_true] at hquoted
        cases hquoted
        exact ⟨rest, by rw [hfields, Keyword.word_of_ofWord? h]⟩
  · rintro ⟨rest, hfields⟩
    rw [hfields]
    exact Keyword.ofWord?_word keyword

/-! ## Groupings -/

/-- Entries that items can be grouped into: nothing is lost or added, a header begins with the
keyword of its block, no line of a body opens a block for the one that it is in, a stray line
has no keyword, and a block ends only where a line opens the next one, where a line cannot be
split, or at the end. -/
structure IsGrouping (items : List Item) (groups : List Entry) : Prop where
  items : groups.flatMap Entry.items = items
  header : ∀ block, .block block ∈ groups →
    ∃ rest, block.header.fields = ⟨block.keyword.word, false⟩ :: rest
  body : ∀ block, .block block ∈ groups → ∀ line ∈ block.body, opens block.keyword line = false
  stray : ∀ line, .stray line ∈ groups → keyword? line = none
  ends : ∀ before block after, groups = before ++ .block block :: after →
    ∀ line, (after.flatMap Entry.items).head? = some (.ok line) → opens block.keyword line = true

/-- The entry can stand in front of these items. -/
def Entry.Precedes (items : List Item) : Entry → Prop
  | .block b =>
    (∃ rest, b.header.fields = ⟨b.keyword.word, false⟩ :: rest) ∧
      (∀ line ∈ b.body, opens b.keyword line = false) ∧
      ∀ line, items.head? = some (.ok line) → opens b.keyword line = true
  | .stray line => keyword? line = none
  | .broken _ => True

variable {items : List Item} {entry : Entry} {groups : List Entry}

theorem isGrouping_nil : IsGrouping items [] ↔ items = [] := by
  constructor
  · exact fun h => h.items.symm
  · rintro rfl
    refine ⟨rfl, nofun, nofun, nofun, fun before block after h => ?_⟩
    exact absurd (congrArg List.length h) (by simp)

/-- A grouping is made entry by entry. -/
theorem isGrouping_cons : IsGrouping items (entry :: groups) ↔
    ∃ rest, items = entry.items ++ rest ∧ entry.Precedes rest ∧ IsGrouping rest groups := by
  constructor
  · intro h
    refine ⟨groups.flatMap Entry.items, h.items.symm, ?_, ⟨rfl, fun block hblock => ?_,
      fun block hblock => ?_, fun line hline => ?_, fun before block after hcut => ?_⟩⟩
    · cases entry with
      | block block =>
          exact ⟨h.header block List.mem_cons_self, h.body block List.mem_cons_self,
            h.ends [] block groups rfl⟩
      | stray line => exact h.stray line List.mem_cons_self
      | broken fault => trivial
    · exact h.header block (List.mem_cons_of_mem _ hblock)
    · exact h.body block (List.mem_cons_of_mem _ hblock)
    · exact h.stray line (List.mem_cons_of_mem _ hline)
    · exact h.ends (entry :: before) block after (congrArg (entry :: ·) hcut)
  · rintro ⟨rest, rfl, hentry, h⟩
    refine ⟨?_, fun block hblock => ?_, fun block hblock => ?_, fun line hline => ?_,
      fun before block after hcut => ?_⟩
    · rw [List.flatMap_cons, h.items]
    · rcases List.mem_cons.mp hblock with rfl | hblock
      · exact hentry.1
      · exact h.header block hblock
    · rcases List.mem_cons.mp hblock with rfl | hblock
      · exact hentry.2.1
      · exact h.body block hblock
    · rcases List.mem_cons.mp hline with rfl | hline
      · exact hentry
      · exact h.stray line hline
    · rcases List.cons_eq_append_iff.mp hcut with ⟨rfl, hcons⟩ | ⟨front, rfl, hrest⟩
      · obtain ⟨rfl, rfl⟩ := List.cons.inj hcons
        rw [h.items]
        exact hentry.2.2
      · exact h.ends front block after hrest

/-! ## The entries of items -/

theorem bodyLine?_ok {keyword : Keyword} {line : Line} (h : opens keyword line = false) :
    bodyLine? keyword (.ok line) = some line := by
  simp [bodyLine?, h]

/-- The lines up to one that opens a block are the body. -/
theorem takeWhile_bodyLine? {keyword : Keyword} {body : List Line} {rest : List Item}
    (hbody : ∀ line ∈ body, opens keyword line = false)
    (hrest : ∀ line, rest.head? = some (.ok line) → opens keyword line = true) :
    let inBody := fun item => (bodyLine? keyword item).isSome
    (body.map Except.ok ++ rest).takeWhile inBody = body.map .ok ∧
      (body.map Except.ok ++ rest).dropWhile inBody = rest := by
  intro inBody
  have hin : ∀ item ∈ body.map Except.ok, inBody item = true := by
    rw [List.forall_mem_map]
    intro line hline
    exact congrArg Option.isSome (bodyLine?_ok (hbody line hline))
  have hout : ∀ item ∈ rest.head?, inBody item = false := by
    intro item hitem
    cases item with
    | error fault => rfl
    | ok line => exact congrArg Option.isSome (bodyLine?_eq_none.mpr (hrest line hitem))
  rw [List.takeWhile_append_of_pos hin, List.dropWhile_append_of_pos hin]
  cases rest with
  | nil => exact ⟨List.append_nil _, rfl⟩
  | cons item rest =>
      have hitem := hout item rfl
      rw [List.takeWhile_cons_of_neg (by simp [hitem]), List.append_nil,
        List.dropWhile_cons_of_neg (by simp [hitem])]
      exact ⟨rfl, rfl⟩

theorem filterMap_bodyLine? {keyword : Keyword} {body : List Line}
    (h : ∀ line ∈ body, opens keyword line = false) :
    (body.map Except.ok).filterMap (bodyLine? keyword) = body := by
  induction body with
  | nil => rfl
  | cons line body ih =>
      rw [List.forall_mem_cons] at h
      rw [List.map_cons, List.filterMap_cons_some (bodyLine?_ok h.1), ih h.2]

/-- Where an entry can stand in front of items, it is read as one in front of theirs. -/
theorem entries_append_of_precedes (h : entry.Precedes items) :
    entries (entry.items ++ items) = entry :: entries items := by
  cases entry with
  | block block =>
      obtain ⟨hheader, hbody, hends⟩ := h
      obtain ⟨htake, hdrop⟩ := takeWhile_bodyLine? hbody hends
      rw [Entry.items, List.cons_append, entries_header (keyword?_eq_some.mpr hheader), htake,
        hdrop, filterMap_bodyLine? hbody]
  | stray line =>
      rw [Entry.items, List.singleton_append, entries, h]
  | broken fault => rw [Entry.items, List.singleton_append, entries]

theorem isGrouping_entries (items : List Item) : IsGrouping items (entries items) := by
  induction items using entries.induct with
  | case1 =>
      rw [entries]
      exact isGrouping_nil.mpr rfl
  | case2 fault items ih =>
      rw [entries]
      exact isGrouping_cons.mpr ⟨items, rfl, trivial, ih⟩
  | case3 line items hnone ih =>
      rw [entries, hnone]
      exact isGrouping_cons.mpr ⟨items, rfl, hnone, ih⟩
  | case4 line items keyword hsome inBody ih =>
      rw [entries_header hsome]
      refine isGrouping_cons.mpr ⟨items.dropWhile inBody, ?_,
        ⟨keyword?_eq_some.mp hsome, fun other hother => ?_, fun other hother => ?_⟩, ih⟩
      · rw [Entry.items, map_ok_filterMap_bodyLine?, List.cons_append,
          List.takeWhile_append_dropWhile]
      · obtain ⟨item, -, hitem⟩ := List.mem_filterMap.mp hother
        cases bodyLine?_eq_some hitem
        rw [← Bool.not_eq_true, ← bodyLine?_eq_none, hitem]
        exact Option.some_ne_none _
      · have hbody := List.head?_dropWhile_not inBody items
        rw [hother] at hbody
        have hnone := Option.isNone_iff_eq_none.mp (Option.isSome_eq_false_iff.mp hbody)
        exact bodyLine?_eq_none.mp hnone

/-- Items have one grouping. -/
theorem isGrouping_iff : IsGrouping items groups ↔ groups = entries items := by
  constructor
  · intro h
    induction groups generalizing items with
    | nil =>
        rw [isGrouping_nil.mp h, entries]
    | cons entry groups ih =>
        obtain ⟨rest, rfl, hentry, hrest⟩ := isGrouping_cons.mp h
        rw [entries_append_of_precedes hentry, ← ih hrest]
  · rintro rfl
    exact isGrouping_entries items

end Block

/-! ## The lines of a source -/

namespace Line

/-- The lines of a source that have content, in order, each with its position among all lines,
from one. -/
structure AreContent (source : List Char) (lines : List Line) : Prop where
  increasing : lines.Pairwise fun line later => line.number < later.number
  mem_iff : ∀ line, line ∈ lines ↔ line.fields ≠ [] ∧ ∃ index raw, line.number = index + 1 ∧
    (Text.lines source)[index]? = some raw ∧ Field.splitLine raw = .ok line.fields

theorem read_eq_some_ok_iff {number : Nat} {raw : List Char} {line : Line} :
    read number raw = some (.ok line) ↔
      line.number = number ∧ line.fields ≠ [] ∧ Field.splitLine raw = .ok line.fields := by
  constructor
  · intro h
    obtain ⟨hsplit, hnumber⟩ := read_eq_some_ok h
    exact ⟨hnumber, fields_ne_nil_of_read h, hsplit⟩
  · rintro ⟨rfl, hne, hsplit⟩
    obtain ⟨field, rest, hfields⟩ := List.exists_cons_of_ne_nil hne
    obtain ⟨number, fields⟩ := line
    cases hfields
    rw [read, hsplit]

theorem read_eq_some_error_iff {number : Nat} {raw : List Char} {fault : Fault} :
    read number raw = some (.error fault) ↔
      fault.number = number ∧ Field.splitLine raw = .error fault.cause := by
  obtain ⟨place, cause⟩ := fault
  unfold read
  split
  · rename_i other hsplit
    rw [hsplit]
    simp [eq_comm]
  · rename_i hsplit
    simp [hsplit]
  · rename_i hsplit
    simp [hsplit]

/-- What is read of a source, and from which of its lines. -/
theorem mem_ofSource_iff {source : List Char} {item : Except Fault Line} :
    item ∈ ofSource source ↔
      ∃ index raw, (Text.lines source)[index]? = some raw ∧ read (index + 1) raw = some item := by
  rw [ofSource, List.mem_filterMap]
  constructor
  · rintro ⟨⟨raw, number⟩, hmem, hread⟩
    obtain ⟨hnumber, hraw⟩ := List.mem_zipIdx_iff_le_and_getElem?_sub.mp hmem
    obtain ⟨index, rfl⟩ := Nat.exists_eq_add_of_le' hnumber
    exact ⟨index, raw, hraw, hread⟩
  · rintro ⟨index, raw, hraw, hread⟩
    exact ⟨(raw, index + 1), List.mem_zipIdx_iff_le_and_getElem?_sub.mpr
      ⟨Nat.le_add_left 1 index, hraw⟩, hread⟩

/-- The numbers of what is read of raw lines increase. -/
theorem pairwise_of_readFrom {number : Nat} {raws : List (List Char)} {lines : List Line}
    (h : readFrom number raws = lines.map .ok) :
    (lines.Pairwise fun line later => line.number < later.number) ∧
      ∀ line ∈ lines, number ≤ line.number := by
  induction raws generalizing number lines with
  | nil =>
      cases List.map_eq_nil_iff.mp h.symm
      exact ⟨.nil, List.forall_mem_nil _⟩
  | cons raw raws ih =>
      rw [readFrom] at h
      cases hread : read number raw with
      | none =>
          rw [hread] at h
          obtain ⟨hpairwise, hle⟩ := ih h
          exact ⟨hpairwise, fun line hline => Nat.le_of_succ_le (hle line hline)⟩
      | some item =>
          rw [hread] at h
          obtain ⟨line, rest, rfl, rfl, hrest⟩ := List.map_eq_cons_iff.mp h.symm
          obtain ⟨hpairwise, hle⟩ := ih hrest.symm
          obtain ⟨-, hnumber⟩ := read_eq_some_ok hread
          rw [List.pairwise_cons, List.forall_mem_cons]
          exact ⟨⟨fun later hlater => hnumber ▸ hle later hlater, hpairwise⟩, hnumber.ge,
            fun later hlater => Nat.le_of_succ_le (hle later hlater)⟩

theorem areContent_of_ofSource {source : List Char} {lines : List Line}
    (h : ofSource source = lines.map .ok) : AreContent source lines := by
  refine ⟨(pairwise_of_readFrom ((ofSource_eq source).symm.trans h)).1, fun line => ?_⟩
  have hmem : line ∈ lines ↔ .ok line ∈ ofSource source := by
    rw [h, List.mem_map_of_injective fun _ _ => Except.ok.inj]
  rw [hmem, mem_ofSource_iff]
  simp only [read_eq_some_ok_iff]
  constructor
  · rintro ⟨index, raw, hraw, hnumber, hne, hsplit⟩
    exact ⟨hne, index, raw, hnumber, hraw, hsplit⟩
  · rintro ⟨hne, index, raw, hnumber, hraw, hsplit⟩
    exact ⟨index, raw, hraw, hnumber, hne, hsplit⟩

/-- All lines can be split where each of the raw lines can. -/
theorem splits_iff_forall_lines {source : String} :
    Splits source ↔
      ∀ raw ∈ Text.lines source.toList, ∃ fields, Field.splitLine raw = .ok fields := by
  constructor
  · intro h raw hraw
    cases hsplit : Field.splitLine raw with
    | ok fields => exact ⟨fields, rfl⟩
    | error cause =>
        obtain ⟨index, hindex⟩ := List.mem_iff_getElem?.mp hraw
        have hread : read (index + 1) raw = some (.error ⟨index + 1, cause⟩) :=
          read_eq_some_error_iff.mpr ⟨rfl, hsplit⟩
        obtain ⟨line, hline⟩ := h _ (mem_ofSource_iff.mpr ⟨index, raw, hindex, hread⟩)
        contradiction
  · intro h item hitem
    obtain ⟨index, raw, hindex, hread⟩ := mem_ofSource_iff.mp hitem
    cases item with
    | ok line => exact ⟨line, rfl⟩
    | error fault =>
        obtain ⟨fields, hfields⟩ := h raw (List.mem_iff_getElem?.mpr ⟨index, hindex⟩)
        rw [(read_eq_some_error_iff.mp hread).2] at hfields
        contradiction

/-- The first line with content, if there is one, begins with an unquoted keyword. -/
def BeginsWithKeyword (source : String) : Prop :=
  ∀ before raw after first rest, Text.lines source.toList = before ++ raw :: after →
    (∀ blank ∈ before, Field.splitLine blank = .ok []) →
    Field.splitLine raw = .ok (first :: rest) → ∃ keyword : Keyword, first = ⟨keyword.word, false⟩

theorem readFrom_blanks {number : Nat} {before : List (List Char)}
    (h : ∀ blank ∈ before, Field.splitLine blank = .ok []) : readFrom number before = [] := by
  induction before generalizing number with
  | nil => rfl
  | cons blank before ih =>
      rw [List.forall_mem_cons] at h
      rw [readFrom, read, h.1, ih h.2]
      rfl

/-- What is read first comes from the first raw line that has content. -/
theorem exists_of_head?_readFrom {number : Nat} {raws : List (List Char)} {line : Line}
    (h : (readFrom number raws).head? = some (.ok line)) :
    ∃ before raw after, raws = before ++ raw :: after ∧
      (∀ blank ∈ before, Field.splitLine blank = .ok []) ∧
      Field.splitLine raw = .ok line.fields ∧ line.fields ≠ [] := by
  induction raws generalizing number with
  | nil => contradiction
  | cons raw raws ih =>
      rw [readFrom] at h
      cases hread : read number raw with
      | none =>
          rw [hread] at h
          obtain ⟨before, other, after, rfl, hbefore, hother⟩ := ih h
          have hblank : Field.splitLine raw = .ok [] := by
            unfold read at hread
            split at hread
            · contradiction
            · assumption
            · contradiction
          exact ⟨raw :: before, other, after, rfl, List.forall_mem_cons.mpr ⟨hblank, hbefore⟩,
            hother⟩
      | some item =>
          rw [hread] at h
          cases h
          obtain ⟨-, hne, hsplit⟩ := read_eq_some_ok_iff.mp hread
          exact ⟨[], raw, raws, rfl, List.forall_mem_nil _, hsplit, hne⟩

theorem beginsWithKeyword_iff {source : String} :
    BeginsWithKeyword source ↔ ∀ line, (ofSource source.toList).head? = some (.ok line) →
      (Block.keyword? line).isSome = true := by
  rw [ofSource_eq]
  constructor
  · intro h line hline
    obtain ⟨before, raw, after, hlines, hbefore, hsplit, hne⟩ := exists_of_head?_readFrom hline
    obtain ⟨first, rest, hfields⟩ := List.exists_cons_of_ne_nil hne
    rw [hfields] at hsplit
    obtain ⟨keyword, rfl⟩ := h before raw after first rest hlines hbefore hsplit
    exact Option.isSome_of_mem (Block.keyword?_eq_some.mpr ⟨rest, hfields⟩)
  · intro h before raw after first rest hlines hbefore hsplit
    have hread : read (1 + before.length) raw = some (.ok ⟨1 + before.length, first :: rest⟩) :=
      read_eq_some_ok_iff.mpr ⟨rfl, nofun, hsplit⟩
    rw [hlines, readFrom_append, readFrom_blanks hbefore, readFrom, hread] at h
    obtain ⟨keyword, hkeyword⟩ := Option.isSome_iff_exists.mp (h _ rfl)
    obtain ⟨others, hfields⟩ := Block.keyword?_eq_some.mp hkeyword
    exact ⟨keyword, (List.cons.inj hfields).1⟩

end Line

/-! ## The blocks of a source -/

namespace Block

/-- Blocks are read where all entries are blocks. -/
theorem ofSource_eq_ok_iff {source : String} {blocks : List Block} :
    ofSource source = .ok blocks ↔
      entries (Line.ofSource source.toList) = blocks.map .block := by
  rw [ofSource]
  constructor
  · intro h
    rw [mapM_eq_ok] at h
    have hentries := h.imp fun _ _ hto => toBlock_eq_ok hto
    rwa [← List.forall₂_eq_eq_eq, List.forall₂_map_right_iff]
  · intro h
    rw [h, mapM_toBlock]

theorem exists_lines_of_ofSource {source : String} {blocks : List Block}
    (h : ofSource source = .ok blocks) :
    ∃ lines : List Line, Line.ofSource source.toList = lines.map .ok := by
  have hitems := flatMap_items_entries (Line.ofSource source.toList)
  rw [ofSource_eq_ok_iff.mp h, List.flatMap_map] at hitems
  refine ⟨blocks.flatMap fun block => block.header :: block.body, ?_⟩
  rw [← hitems, List.map_flatMap]
  rfl

theorem exists_ofSource_iff {source : String} :
    (∃ blocks, ofSource source = .ok blocks) ↔
      Line.Splits source ∧ Line.BeginsWithKeyword source := by
  rw [Line.beginsWithKeyword_iff]
  constructor
  · rintro ⟨blocks, h⟩
    constructor
    · obtain ⟨lines, hlines⟩ := exists_lines_of_ofSource h
      rw [Line.Splits, hlines, List.forall_mem_map]
      exact fun line _ => ⟨line, rfl⟩
    · intro line hline
      have hgrouping := isGrouping_entries (Line.ofSource source.toList)
      rw [ofSource_eq_ok_iff.mp h] at hgrouping
      cases blocks with
      | nil =>
          rw [isGrouping_nil.mp hgrouping] at hline
          contradiction
      | cons block blocks =>
          obtain ⟨rest, hitems, hblock, -⟩ := isGrouping_cons.mp hgrouping
          rw [hitems] at hline
          cases hline
          exact Option.isSome_of_mem (keyword?_eq_some.mpr hblock.1)
  · rintro ⟨hsplits, hfirst⟩
    obtain ⟨blocks, hblocks⟩ := exists_blocks hsplits hfirst
    exact ⟨blocks, ofSource_eq_ok_iff.mpr hblocks⟩

/-- What is read of a source, line by line and with the lines that cannot be split among them,
has one grouping. The source itself has blocks exactly when all its lines can be split and the
first of them that has content begins with a keyword; then the blocks are the one grouping of
its lines with content, each of which has its position in the source as its number. -/
theorem grouping_exact :
    (∀ items groups, IsGrouping items groups ↔ groups = entries items) ∧
    ∀ source : String,
      ((∃ blocks, ofSource source = .ok blocks) ↔
        (∀ raw ∈ Text.lines source.toList, ∃ fields, Field.splitLine raw = .ok fields) ∧
          Line.BeginsWithKeyword source) ∧
      ∀ blocks, ofSource source = .ok blocks →
        ∃ lines, Line.AreContent source.toList lines ∧
          ∀ others : List Block, IsGrouping (lines.map .ok) (others.map .block) ↔
            others = blocks := by
  refine ⟨fun items groups => isGrouping_iff, fun source => ⟨?_, fun blocks h => ?_⟩⟩
  · rw [exists_ofSource_iff, Line.splits_iff_forall_lines]
  · obtain ⟨lines, hlines⟩ := exists_lines_of_ofSource h
    refine ⟨lines, Line.areContent_of_ofSource hlines, fun others => ?_⟩
    have hinjective : Function.Injective Entry.block := fun _ _ => Entry.block.inj
    rw [isGrouping_iff, ← hlines, ofSource_eq_ok_iff.mp h, hinjective.list_map.eq_iff]

end Block

end CadTimeline
