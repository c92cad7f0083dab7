import CadTimeline.Proofs.Text.Lines
import CadTimeline.Proofs.Timeline.Split
import CadTimeline.Timeline.Source

/-!
# Lines of a source and its blocks

The blocks of a source are made of its lines, and the fields of a line of its
characters.
-/

namespace CadTimeline

/-! ## Fields -/

namespace Field

/-- All characters of the fields have the property. -/
def AllChars (p : Char → Prop) (fields : List Field) : Prop :=
  ∀ f ∈ fields, ∀ c ∈ f.text.toList, p c

variable {p : Char → Prop}

theorem Spelled.forall_chars {f : Field} {cs : List Char} (h : f.Spelled cs)
    (hcs : ∀ c ∈ cs, p c) : ∀ c ∈ f.text.toList, p c := by
  intro c hc
  cases h with
  | quoted content =>
      rw [String.toList_ofList, ← mem_doubleQuotes_iff] at hc
      refine hcs c (List.mem_append_left _ (List.mem_append_right _ ?_))
      exact List.mem_cons_of_mem _ (List.mem_append_left _ hc)
  | bare =>
      rw [String.toList_ofList] at hc
      exact hcs c (Text.trim_subset _ hc)

theorem SpelledLine.allChars {fields : List Field} {cs : List Char} (h : SpelledLine fields cs)
    (hcs : ∀ c ∈ cs, p c) : AllChars p fields := by
  induction h with
  | last hf _ =>
      rw [List.forall_mem_append] at hcs
      exact List.forall_mem_singleton.mpr (hf.forall_chars hcs.1)
  | comma hf _ ih =>
      rw [List.forall_mem_append, List.forall_mem_cons] at hcs
      exact List.forall_mem_cons.mpr ⟨hf.forall_chars hcs.1, ih hcs.2.2⟩

theorem dropMark_subset (cs : List Char) : dropMark cs ⊆ cs := by
  unfold dropMark
  split
  · exact List.subset_cons_self _ _
  · exact List.Subset.refl _

theorem allChars_splitLine {raw : List Char} {fields : List Field} (hraw : ∀ c ∈ raw, p c)
    (h : splitLine raw = .ok fields) : AllChars p fields := by
  by_cases hne : fields = []
  · rw [hne]
    exact List.forall_mem_nil _
  · have hspelled := splitLine_eq_fields_iff.mp ⟨h, hne⟩
    exact hspelled.allChars fun c hc => hraw c (dropMark_subset raw hc)

end Field

/-! ## Lines -/

namespace Line

/-- No field of the line holds a line feed. -/
def IsSingle (line : Line) : Prop :=
  ∀ f ∈ line.fields, '\n' ∉ f.text.toList

theorem read_eq_some_ok {number : Nat} {raw : List Char} {line : Line}
    (h : read number raw = some (.ok line)) :
    Field.splitLine raw = .ok line.fields ∧ line.number = number := by
  unfold read at h
  split at h
  · cases h
  · contradiction
  · rename_i hsplit
    cases h
    exact ⟨hsplit, rfl⟩

theorem fields_ne_nil_of_read {number : Nat} {raw : List Char} {line : Line}
    (h : read number raw = some (.ok line)) : line.fields ≠ [] := by
  unfold read at h
  split at h
  · cases h
  · contradiction
  · rename_i hne _
    cases h
    exact hne

/-- What raw lines are read as, numbered from here on. -/
def readFrom : Nat → List (List Char) → List (Except Fault Line)
  | _, [] => []
  | number, raw :: raws => (read number raw).toList ++ readFrom (number + 1) raws

theorem filterMap_zipIdx_read (number : Nat) (raws : List (List Char)) :
    (raws.zipIdx number).filterMap (fun entry => read entry.2 entry.1) = readFrom number raws := by
  induction raws generalizing number with
  | nil => rfl
  | cons raw raws ih =>
      rw [List.zipIdx_cons, List.filterMap_cons, ih, readFrom]
      dsimp only
      cases read number raw <;> rfl

theorem ofSource_eq (source : List Char) : ofSource source = readFrom 1 (Text.lines source) :=
  filterMap_zipIdx_read 1 (Text.lines source)

theorem readFrom_append (number : Nat) (raws others : List (List Char)) :
    readFrom number (raws ++ others) =
      readFrom number raws ++ readFrom (number + raws.length) others := by
  induction raws generalizing number with
  | nil => rfl
  | cons raw raws ih =>
      rw [List.cons_append, readFrom, readFrom, ih, List.append_assoc, List.length_cons,
        Nat.add_right_comm, Nat.add_assoc]

theorem fields_ne_nil_of_mem_ofSource {source : List Char} {line : Line}
    (h : .ok line ∈ ofSource source) : line.fields ≠ [] := by
  obtain ⟨entry, -, hread⟩ := List.mem_filterMap.mp h
  exact fields_ne_nil_of_read hread

theorem isSingle_of_mem_ofSource {source : List Char} {line : Line}
    (h : .ok line ∈ ofSource source) : line.IsSingle := by
  obtain ⟨⟨raw, number⟩, hmem, hread⟩ := List.mem_filterMap.mp h
  have hraw : raw ∈ Text.lines source := by
    have hmap := List.mem_map_of_mem (f := Prod.fst) hmem
    rwa [List.zipIdx_map_fst] at hmap
  have hnewline : ∀ c ∈ raw, c ≠ '\n' := by
    rintro c hc rfl
    exact Text.newline_notMem_of_mem_lines hraw hc
  intro f hf hmem
  exact Field.allChars_splitLine hnewline (read_eq_some_ok hread).1 f hf _ hmem rfl

end Line

/-! ## Blocks -/

namespace Block

theorem bodyLine?_eq_some {keyword : Keyword} {item : Item} {line : Line}
    (h : bodyLine? keyword item = some line) : item = .ok line := by
  unfold bodyLine? at h
  split at h
  · split at h
    · contradiction
    · cases h
      rfl
  · contradiction

/-- The lines of a body are the items it was read from. -/
theorem map_ok_filterMap_bodyLine? (keyword : Keyword) (items : List Item) :
    ((items.takeWhile fun item => (bodyLine? keyword item).isSome).filterMap
      (bodyLine? keyword)).map .ok =
        items.takeWhile fun item => (bodyLine? keyword item).isSome := by
  induction items with
  | nil => rfl
  | cons item items ih =>
      cases hline : bodyLine? keyword item with
      | none => simp [hline]
      | some line =>
          rw [List.takeWhile_cons, hline, Option.isSome_some, if_pos rfl,
            List.filterMap_cons_some hline, List.map_cons, ih, bodyLine?_eq_some hline]

/-- The entries of a source are made of its items, all of them and in order. -/
theorem flatMap_items_entries (items : List Item) : (entries items).flatMap Entry.items = items := by
  induction items using entries.induct with
  | case1 => simp [entries]
  | case2 fault items ih =>
      rw [entries, List.flatMap_cons, ih]
      rfl
  | case3 line items hnone ih =>
      rw [entries, hnone, List.flatMap_cons, ih]
      rfl
  | case4 line items keyword hsome inBody ih =>
      rw [entries, hsome]
      dsimp only
      rw [List.flatMap_cons, ih, Entry.items, map_ok_filterMap_bodyLine?, List.cons_append,
        List.takeWhile_append_dropWhile]

theorem toBlock_eq_ok {entry : Entry} {block : Block} (h : entry.toBlock = .ok block) :
    entry = .block block := by
  cases entry with
  | block b =>
      cases h
      rfl
  | stray line => contradiction
  | broken fault => contradiction

/-- The header and the body of a block are lines of the source. -/
theorem mem_ofSource {source : String} {blocks : List Block} (h : ofSource source = .ok blocks)
    {block : Block} (hblock : block ∈ blocks) {line : Line}
    (hline : line = block.header ∨ line ∈ block.body) : .ok line ∈ Line.ofSource source.toList := by
  obtain ⟨entry, hentry, hto⟩ := exists_of_mem_mapM h hblock
  rw [toBlock_eq_ok hto] at hentry
  rw [← flatMap_items_entries (Line.ofSource source.toList)]
  refine List.mem_flatMap.mpr ⟨_, hentry, ?_⟩
  rcases hline with rfl | hline
  · exact List.mem_cons_self
  · exact List.mem_cons_of_mem _ (List.mem_map_of_mem hline)

end Block

end CadTimeline
