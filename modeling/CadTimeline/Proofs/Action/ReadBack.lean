import CadTimeline.Analysis
import CadTimeline.Proofs.Action.HiddenKey
import CadTimeline.Proofs.Parameter.Table
import CadTimeline.Proofs.Reading
import CadTimeline.Proofs.Timeline.RowLines

/-!
# Action files read back

The rows of an action file behind those that its schema prescribes are read against the
schema without any parameters. They give the records of the action again, unless a data
row is taken for something else: a row that starts with the words of a key begins a record
of its own, and a byte order mark in front of a row is dropped.
-/

namespace CadTimeline

open Body CadTimeline.Field Text

/-! ## Reading a file back -/

/-- How many rows a preamble has. -/
def Preamble.length : Preamble → Nat
  | keyword => 1
  | keywordName => 1
  | keywordNameGroup => 1
  | keywordThenName => 2
  | keywordThenGroup => 2

/-- How many rows the schema prescribes. -/
def Schema.frontLength (schema : Schema) : Nat :=
  schema.preamble.length + if schema.unitLine then 1 else 0

/-- The lines of a file that can be split throughout. -/
def readLines (file : String) : Except LineIssue (List Line) :=
  (Line.ofSource file.toList).mapM fun item =>
    item.mapError fun fault => ⟨fault.number, .malformed fault.cause⟩

/-- The key that a sketch does not show goes back to the first line. -/
def restoreKey : List Line → List Line
  | [] => []
  | line :: lines => ⟨line.number, ⟨"offset_plane", false⟩ :: line.fields⟩ :: lines

namespace Action

/-- The records that the file of the action holds. -/
def readBack (action : Action) : Except LineIssue (List Record) := do
  let lines ← readLines action.file
  let shown := lines.filter fun line => decide (action.kind.schema.frontLength < line.number)
  let body := if action.kind = .sketch then restoreKey shown else shown
  Body.read action.kind.schema Scope.none ⟨.action action.kind, ⟨1, []⟩, body⟩

/-- No data row starts with the words of a key, and none with a bare byte order mark. -/
def KeepsRows (action : Action) : Prop :=
  ∀ record ∈ action.records, ∀ row ∈ record.rowTexts,
    action.kind.schema.opens row = false ∧ ¬IsMarkedRow row

instance (action : Action) : Decidable action.KeepsRows :=
  inferInstanceAs (Decidable (∀ record ∈ action.records, ∀ row ∈ record.rowTexts, _ ∧ _))

end Action

/-! ## The lines of a file -/

theorem Action.length_front (action : Action) :
    action.front.length = action.kind.schema.frontLength := by
  have hpreamble : ∀ (shape : Preamble) (keyword name : String) (group : Option String),
      (File.preamble shape keyword name group).length = shape.length := by
    intro shape keyword name group
    cases shape <;> rfl
  rw [front, List.length_append, hpreamble, Schema.frontLength]
  split
  · rfl
  · rfl

/-- The rows of the front are single texts or start with the keyword. -/
theorem Action.front_of_mem {action : Action} {row : List String} (hrow : row ∈ action.front) :
    row ≠ [] ∧ (¬IsMarkedRow row ∨ ∃ text, row = [text]) := by
  have hword : ∀ rest, ¬IsMarkedRow (action.kind.word :: rest) := by
    intro rest hmark
    have hhead : action.kind.word.toList.head? ≠ some '\uFEFF' := by
      cases action.kind <;> decide
    exact hhead hmark.1
  rcases List.mem_append.mp hrow with hrow | hrow
  · rcases File.preamble_cases hrow with ⟨text, rfl⟩ | ⟨rest, rfl⟩
    · exact ⟨List.cons_ne_nil _ _, .inr ⟨text, rfl⟩⟩
    · exact ⟨List.cons_ne_nil _ _, .inl (hword rest)⟩
  · split at hrow
    · rw [List.mem_singleton] at hrow
      exact ⟨hrow ▸ List.cons_ne_nil _ _, .inr ⟨_, hrow⟩⟩
    · exact absurd hrow List.not_mem_nil

theorem readLines_eq_ok {file : String} {lines : List Line} :
    readLines file = .ok lines ↔ Line.ofSource file.toList = lines.map .ok := by
  rw [readLines, mapM_eq_ok]
  simp only [mapError_eq_ok]
  rw [← List.forall₂_map_right_iff (f := Except.ok), List.forall₂_eq_eq_eq]

/-- The lines behind the front are those of the records. -/
theorem filter_eq_of_readRows {front shown : List (List String)} {lines others : List Line}
    (hfront : readRows 1 front = lines.map .ok)
    (hshown : readRows (1 + front.length) shown = others.map .ok) :
    (lines ++ others).filter (fun line => decide (front.length < line.number)) = others := by
  have hbefore : ∀ line ∈ lines, decide (front.length < line.number) = false := by
    intro line hline
    have hmem : .ok line ∈ readRows 1 front := hfront ▸ List.mem_map_of_mem hline
    have hnumber := number_of_mem_readRows hmem
    rw [decide_eq_false_iff_not]
    omega
  have hbehind : ∀ line ∈ others, decide (front.length < line.number) = true := by
    intro line hline
    have hmem : .ok line ∈ readRows (1 + front.length) shown :=
      hshown ▸ List.mem_map_of_mem hline
    have hnumber := number_of_mem_readRows hmem
    rw [decide_eq_true_iff]
    omega
  rw [List.filter_append, List.filter_eq_self.mpr hbehind,
    List.filter_eq_nil_iff.mpr fun line hline => Bool.eq_false_iff.mp (hbefore line hline),
    List.nil_append]

/-! ## The rows of an action -/

/-- A block with the action that was read from it. -/
structure Action.FromBlock (action : Action) (scope : Scope) (block : Block) : Prop where
  finite : scope.IsFinite
  action : ofBlock action.kind scope action.unit block = .ok action
  header : block.header.IsSingle
  body : ∀ line ∈ block.body, line.IsSingle ∧ line.fields ≠ []

namespace Action.FromBlock

variable {action : Action} {scope : Scope} {block : Block}

theorem destination (h : action.FromBlock scope block) :
    Destination.ofHeader scope block.header = .ok action.destination :=
  (ofBlock_eq_ok.mp h.action).2.2.2.1

theorem read (h : action.FromBlock scope block) :
    Body.read action.kind.schema scope block = .ok action.records :=
  (ofBlock_eq_ok.mp h.action).2.2.2.2

theorem newline_notMem_front (h : action.FromBlock scope block) :
    ∀ row ∈ action.front, ∀ text ∈ row, '\n' ∉ text.toList :=
  Action.newline_notMem_front h.destination h.header

theorem texts_of_mem (h : action.FromBlock scope block) {row : List String}
    (hrow : row ∈ textsOf action.records) : row ≠ [] ∧ ∀ text ∈ row, '\n' ∉ text.toList := by
  have hreadable := action.kind.schema_isReadable
  obtain ⟨progress, hprogress, hrecords⟩ := read_eq_ok h.read
  have hadds := adds_of_foldlM hreadable (textsOf_start _ _) hprogress
  rw [hrecords] at hadds
  obtain ⟨line, hline, hadd⟩ := exists_of_mem_right_forall₂ hadds hrow
  obtain ⟨hsingle, hne⟩ := h.body line hline
  exact ⟨hadd.ne_nil hreadable hne, hadd.newline_notMem hreadable hsingle⟩

/-- What is shown of an action are the lines of its records; a sketch lacks its first
word. -/
theorem shown_cases (h : action.FromBlock scope block) :
    action.kind ≠ .sketch ∧ action.shown = textsOf action.records ∨
      action.kind = .sketch ∧ ∃ head tail, action.shown = head :: tail ∧
        textsOf action.records = ("offset_plane" :: head) :: tail ∧ head ≠ [] ∧
        ¬IsMarkedRow head := by
  have hread := h.read
  by_cases hkind : action.kind = .sketch
  · rw [hkind] at hread
    exact .inr ⟨hkind, exists_shown_of_read hread⟩
  · exact .inl ⟨hkind, flatMap_shown_of_read hkind hread⟩

theorem shown_of_mem (h : action.FromBlock scope block) {row : List String}
    (hrow : row ∈ action.shown) : row ≠ [] ∧ ∀ text ∈ row, '\n' ∉ text.toList := by
  rcases h.shown_cases with ⟨-, hshown⟩ | ⟨-, head, tail, hshown, htexts, hne, -⟩
  · exact h.texts_of_mem (hshown ▸ hrow)
  · rw [hshown] at hrow
    rcases List.mem_cons.mp hrow with rfl | hrow
    · obtain ⟨-, hline⟩ := h.texts_of_mem (htexts ▸ List.mem_cons_self)
      exact ⟨hne, (List.forall_mem_cons.mp hline).2⟩
    · exact h.texts_of_mem (htexts ▸ List.mem_cons_of_mem _ hrow)

/-- With the key of a sketch back in its place, the lines of the file are those of the
records. -/
theorem rowsRead_restored (h : action.FromBlock scope block) {lines : List Line}
    (hlines : RowsRead action.shown lines) :
    RowsRead (textsOf action.records)
      (if action.kind = .sketch then restoreKey lines else lines) := by
  rcases h.shown_cases with ⟨hkind, hshown⟩ | ⟨hkind, head, tail, hshown, htexts, -, hmark⟩
  · rw [if_neg hkind, ← hshown]
    exact hlines
  · rw [if_pos hkind, htexts]
    rw [hshown] at hlines
    have hkey : ¬IsMarkedRow ("offset_plane" :: head) :=
      fun hmarked => absurd hmarked.1 (by decide)
    cases hlines with
    | kept _ hfields hrest =>
        have hbare : ofText "offset_plane" = ⟨"offset_plane", false⟩ := by decide +kernel
        refine .kept hkey ?_ hrest
        rw [hfields, List.map_cons, hbare]
    | changed hmarked => exact absurd hmarked hmark
    | lost hmarked => exact absurd hmarked hmark

theorem newline_notMem_rows (h : action.FromBlock scope block) :
    ∀ row ∈ action.front ++ action.shown, ∀ text ∈ row, '\n' ∉ text.toList := by
  intro row hrow
  rcases List.mem_append.mp hrow with hrow | hrow
  · exact h.newline_notMem_front row hrow
  · exact (h.shown_of_mem hrow).2

theorem ofSource_file (h : action.FromBlock scope block) :
    Line.ofSource action.file.toList =
      readRows 1 action.front ++ readRows (1 + action.front.length) action.shown := by
  rw [action.toList_file, fileText, Line.ofSource_rows h.newline_notMem_rows, readRows_append]

/-- Lines of the records that are read back when the file is. -/
theorem exists_read_of_readBack (h : action.FromBlock scope block) {later : List Record}
    (hback : action.readBack = .ok later) :
    ∃ lines, RowsRead (textsOf action.records) lines ∧
      Body.read action.kind.schema Scope.none ⟨.action action.kind, ⟨1, []⟩, lines⟩ =
        .ok later := by
  rw [readBack, bind_eq_ok] at hback
  obtain ⟨lines, hlines, hread⟩ := hback
  rw [readLines_eq_ok, h.ofSource_file, eq_comm, List.map_eq_append_iff] at hlines
  obtain ⟨before, shown, rfl, hfront, hshown⟩ := hlines
  rw [← action.length_front, filter_eq_of_readRows hfront.symm hshown.symm] at hread
  refine ⟨_, h.rowsRead_restored ?_, hread⟩
  exact rowsRead_of_readRows (fun row hrow => (h.shown_of_mem hrow).1) hshown.symm

/-- The file can be split into lines if no line of a record is marked. -/
theorem exists_readBack_eq (h : action.FromBlock scope block)
    (hmarks : ∀ row ∈ textsOf action.records, ¬IsMarkedRow row) :
    ∃ lines, RowsRead (textsOf action.records) lines ∧ action.readBack =
      Body.read action.kind.schema Scope.none ⟨.action action.kind, ⟨1, []⟩, lines⟩ := by
  have hunmarked : ∀ row ∈ action.shown, ¬IsMarkedRow row := by
    intro row hrow
    rcases h.shown_cases with ⟨-, hshown⟩ | ⟨-, head, tail, hshown, htexts, -, hmark⟩
    · exact hmarks row (hshown ▸ hrow)
    · rcases List.mem_cons.mp (hshown ▸ hrow) with rfl | hrow
      · exact hmark
      · exact hmarks row (htexts ▸ List.mem_cons_of_mem _ hrow)
  obtain ⟨before, hfront⟩ :=
    exists_lines_readRows (fun row (hrow : row ∈ action.front) => front_of_mem hrow) 1
  obtain ⟨shown, hshown⟩ := exists_lines_readRows
    (fun row hrow => ⟨(h.shown_of_mem hrow).1, .inl (hunmarked row hrow)⟩) (1 + action.front.length)
  have hlines : readLines action.file = .ok (before ++ shown) := by
    rw [readLines_eq_ok, h.ofSource_file, hfront, hshown, List.map_append]
  refine ⟨_, h.rowsRead_restored
    (rowsRead_of_readRows (fun row hrow => (h.shown_of_mem hrow).1) hshown), ?_⟩
  rw [readBack, hlines, ← action.length_front]
  show Body.read _ _ ⟨_, _, if _ then restoreKey (List.filter _ _) else List.filter _ _⟩ = _
  rw [filter_eq_of_readRows hfront hshown]

/-- The line of a record starts with a key word, so that only rows can be marked. -/
theorem not_isMarkedRow (h : action.FromBlock scope block)
    (hrows : ∀ record ∈ action.records, ∀ row ∈ record.rowTexts, ¬IsMarkedRow row) :
    ∀ row ∈ textsOf action.records, ¬IsMarkedRow row := by
  have hreadable := action.kind.schema_isReadable
  intro row hrow
  obtain ⟨record, hrecord, hrow⟩ := List.mem_flatMap.mp hrow
  unfold Record.texts at hrow
  split at hrow
  · exact hrows record hrecord row hrow
  · rename_i hhead
    rcases List.mem_cons.mp hrow with rfl | hrow
    · rcases fromSlot_of_mem hreadable h.read hrecord with hnil | ⟨index, hfrom⟩
      · rw [hnil] at hhead
        contradiction
      · obtain ⟨slot, kind, hslot, hkind, hkey, -⟩ := hfrom.exists_kind
        rw [Record.head, hkey]
        refine hreadable.not_isMarkedRow (List.mem_flatMap.mpr ⟨slot, ?_, hkind⟩) _
        exact List.fst_mem_of_mem_zipIdx hslot
    · exact hrows record hrecord row hrow

/-- A file is read back as its records exactly when its rows stay rows. -/
theorem readBack_iff (h : action.FromBlock scope block) :
    (∃ later, action.readBack = .ok later ∧ List.Forall₂ Record.Agrees action.records later) ↔
      action.KeepsRows := by
  have hreadable := action.kind.schema_isReadable
  constructor
  · rintro ⟨later, hback, hagree⟩
    obtain ⟨lines, hlines, hlater⟩ := h.exists_read_of_readBack hback
    have hapart := rowsApart_of_read hreadable h.read hlater hagree.length_eq
      (hlines.countP_le hreadable)
    have htexts : textsOf action.records = textsOf later := by
      rw [textsOf, textsOf, List.flatMap_def, List.flatMap_def,
        Record.map_eq_of_forall₂ (R := Record.Agrees) (fun _ _ hrecord => hrecord.texts_eq) hagree]
    have hmarks := marks_read_le hreadable hlater
    rw [← htexts] at hmarks
    have hunmarked := hlines.marks_le.2 hmarks
    intro record hrecord row hrow
    refine ⟨hapart record hrecord row hrow, hunmarked row ?_⟩
    exact List.mem_flatMap.mpr ⟨record, hrecord, record.rowTexts_subset hrow⟩
  · intro hkeeps
    have hunmarked := h.not_isMarkedRow fun record hrecord row hrow =>
      (hkeeps record hrecord row hrow).2
    obtain ⟨lines, hlines, hback⟩ := h.exists_readBack_eq hunmarked
    have hcopy : (Block.mk (.action action.kind) ⟨1, []⟩ lines).body.map Line.fields =
        (textsOf action.records).map fun texts => texts.map ofText := hlines.map_fields hunmarked
    obtain ⟨later, hlater, hagree⟩ := exists_read hreadable h.finite h.read
      (fun record hrecord row hrow => (hkeeps record hrecord row hrow).1) hcopy
    exact ⟨later, hback.trans hlater, hagree⟩

end Action.FromBlock

/-! ## Actions of a source -/

namespace Analysis

variable {file source : String} {unit : LengthUnit} {analysis : Analysis} {action : Action}

/-- A block of a source with the action that is read from it behind the blocks before it. -/
theorem fromBlock_of_reads {blocks before : List Block} {here : Reading} {block : Block}
    {kind : ActionKind} (hblocks : Block.ofSource source = .ok blocks) (hblock : block ∈ blocks)
    (hreads : Reading.Reads file (.start unit) before here)
    (hof : Action.ofBlock kind here.scope here.unit block = .ok action) :
    action.FromBlock here.scope block := by
  have hline : ∀ line, line = block.header ∨ line ∈ block.body →
      .ok line ∈ Line.ofSource source.toList := fun _ => Block.mem_ofSource hblocks hblock
  have hfinite := (hreads.isFinite (Reading.isFinite_start unit)).scope .constantsOnly
  obtain ⟨hkind, hunit, -, -, -⟩ := Action.ofBlock_eq_ok.mp hof
  refine ⟨hfinite, ?_, ?_, fun line hbody => ⟨?_, ?_⟩⟩
  · rw [hkind, hunit]
    exact hof
  · exact Line.isSingle_of_mem_ofSource (hline _ (.inl rfl))
  · exact Line.isSingle_of_mem_ofSource (hline _ (.inr hbody))
  · exact Line.fields_ne_nil_of_mem_ofSource (hline _ (.inr hbody))

theorem exists_fromBlock (h : ofSource file source unit = .ok analysis)
    (hmem : action ∈ analysis.actions) : ∃ scope block, action.FromBlock scope block := by
  obtain ⟨before, block, after, here, kind, hblocks, hreads, -, hof⟩ :=
    exists_block_of_mem_actions h hmem
  have hblock : block ∈ before ++ block :: after := List.mem_append_right _ List.mem_cons_self
  exact ⟨here.scope, block, fromBlock_of_reads hblocks hblock hreads hof⟩

/-- The file of an action is read back as the records of the action exactly when no data
row starts with the words of a key or with a bare byte order mark. -/
theorem readBack_iff_keepsRows (h : ofSource file source unit = .ok analysis)
    (hmem : action ∈ analysis.actions) :
    (∃ later, action.readBack = .ok later ∧ List.Forall₂ Record.Agrees action.records later) ↔
      action.KeepsRows := by
  obtain ⟨scope, block, hfrom⟩ := exists_fromBlock h hmem
  exact hfrom.readBack_iff

/-- A sketch with a parameter. -/
def circleTimeline : String :=
  "parameters\nr, 10\nsketch, f, s\noffset_plane, z, 0\ncircle\n0, 0, $r\n"

theorem exists_readBack_circle : ∃ analysis action,
    ofSource "t.txt" circleTimeline .mm = .ok analysis ∧ action ∈ analysis.actions ∧
      ∃ later, action.readBack = .ok later ∧ List.Forall₂ Record.Agrees action.records later := by
  have hkept : ((ofSource "t.txt" circleTimeline .mm).toOption.any fun analysis =>
      analysis.actions.any fun action => decide action.KeepsRows) = true := by
    decide +kernel
  obtain ⟨analysis, hread, hany⟩ := exists_of_toOption_any hkept
  obtain ⟨action, hmem, hkeeps⟩ := List.any_eq_true.mp hany
  exact ⟨analysis, action, hread, hmem,
    (readBack_iff_keepsRows hread hmem).mpr (of_decide_eq_true hkeeps)⟩

/-- A loft in which a quoted row is named like the line after it. -/
def quotedRow : String :=
  "loft, f, skin\nprofiles\na\n\"rails\"\nrails\nguide\n"

/-- A loft with a quoted row that starts with a byte order mark. -/
def markedRow : String :=
  "loft, f, skin\nprofiles\n\"\uFEFFa\"\nb\n"

theorem exists_not_readBack {source : String}
    (hlost : ((ofSource "t.txt" source .mm).toOption.any fun analysis =>
      analysis.actions.any fun action => !decide action.KeepsRows) = true) :
    ∃ analysis action, ofSource "t.txt" source .mm = .ok analysis ∧ action ∈ analysis.actions ∧
      ¬∃ later, action.readBack = .ok later ∧
        List.Forall₂ Record.Agrees action.records later := by
  obtain ⟨analysis, hread, hany⟩ := exists_of_toOption_any hlost
  obtain ⟨action, hmem, hrows⟩ := List.any_eq_true.mp hany
  obtain ⟨scope, block, hfrom⟩ := exists_fromBlock hread hmem
  refine ⟨analysis, action, hread, hmem, fun hback => ?_⟩
  simp [hfrom.readBack_iff.mp hback] at hrows

/-- Not every file is read back: one row is taken for a key, another one loses its mark. -/
theorem exists_action_not_readBack :
    (∃ analysis action, ofSource "t.txt" quotedRow .mm = .ok analysis ∧
      action ∈ analysis.actions ∧
      ¬∃ later, action.readBack = .ok later ∧
        List.Forall₂ Record.Agrees action.records later) ∧
    ∃ analysis action, ofSource "t.txt" markedRow .mm = .ok analysis ∧
      action ∈ analysis.actions ∧
      ¬∃ later, action.readBack = .ok later ∧
        List.Forall₂ Record.Agrees action.records later :=
  ⟨exists_not_readBack (by decide +kernel), exists_not_readBack (by decide +kernel)⟩

end Analysis

end CadTimeline
