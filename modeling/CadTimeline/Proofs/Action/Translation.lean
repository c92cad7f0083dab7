import CadTimeline.Proofs.Action.ReadBack
import CadTimeline.Proofs.Reading.Past
import CadTimeline.Proofs.Record.Acceptance

/-!
# Actions line by line

Behind the rows that its schema prescribes, an action file has one line for each line of the
body of its block, in the same order: the words of the key, if the line has one that is shown,
and the values of its fields up to the rail tags. A line is split into these texts again unless
it starts with a bare byte order mark.
-/

namespace CadTimeline

open Body CadTimeline.Field Text

/-! ## The texts of a line -/

/-- What a field is shown as in an action file. -/
inductive FieldSpec.Shows (spec : FieldSpec) (scope : Scope) (field : Field) : String → Prop
  | number {x : Float} (hkind : spec.kind = .number)
      (h : Expr.evalText scope field.text = .ok x) : Shows spec scope field (Number.plain x)
  | integer {x : Float} (hkind : spec.kind = .integer)
      (h : Expr.evalText scope field.text = .ok x) :
      Shows spec scope field (toString (Binary64.toInt x))
  | text {s : String} (hkind : spec.kind = .text ∨ ∃ words, spec.kind = .choice words)
      (h : Substitution.substitute scope.value? field.text = .ok s) : Shows spec scope field s

/-- What the fields of a line are shown as, one text for each. -/
def Fields.Shows (fields : Fields) (scope : Scope) (line : List Field) (texts : List String) :
    Prop :=
  List.Forall₂ (fun entry text => ∃ spec, fields.spec? entry.2 = some spec ∧
    spec.Shows scope entry.1 text) line.zipIdx texts

namespace Schema.Recognised

/-- The fields between the key and the rail tags. -/
def own (found : Recognised) (line : Line) : List Field :=
  let fields := line.fields.drop found.kind.key.length
  if found.kind.railTags then fields.takeWhile fun field => (TagWord.ofField? field).isNone
  else fields

/-- The key words that an action file shows: all of them but that of the plane of a sketch. -/
def shownKey (found : Recognised) : List String :=
  if found.kind.key = ["offset_plane"] then [] else found.kind.key

end Schema.Recognised

/-- The lines of a body one by one, with the texts that each is shown as. The rows before the
next key line are laid out as the last one wants them. -/
inductive Body.Translation (schema : Schema) (scope : Scope) :
    Option Rows → List Line → List (List String) → Prop
  | nil {rows : Option Rows} : Translation schema scope rows [] []
  | key {rows : Option Rows} {line : Line} {found : Schema.Recognised} {texts : List String}
      {lines : List Line} {rest : List (List String)} (hfound : schema.recognise? line = some found)
      (htexts : found.kind.fields.Shows scope (found.own line) texts)
      (h : Translation schema scope found.kind.rows lines rest) :
      Translation schema scope rows (line :: lines) ((found.shownKey ++ texts) :: rest)
  | row {rows : Rows} {line : Line} {texts : List String} {lines : List Line}
      {rest : List (List String)} (hnone : schema.recognise? line = none)
      (htexts : rows.fields.Shows scope line.fields texts)
      (h : Translation schema scope (some rows) lines rest) :
      Translation schema scope (some rows) (line :: lines) (texts :: rest)

/-! ## One translation -/

theorem FieldSpec.Shows.unique {spec : FieldSpec} {scope : Scope} {field : Field}
    {text other : String} (h : spec.Shows scope field text) (h' : spec.Shows scope field other) :
    text = other := by
  cases h with
  | number hkind h =>
      cases h' with
      | number _ h' => rw [Except.ok.inj (h.symm.trans h')]
      | integer hkind' => rw [hkind] at hkind'; contradiction
      | text hkind' => rw [hkind] at hkind'; simp at hkind'
  | integer hkind h =>
      cases h' with
      | number hkind' => rw [hkind] at hkind'; contradiction
      | integer _ h' => rw [Except.ok.inj (h.symm.trans h')]
      | text hkind' => rw [hkind] at hkind'; simp at hkind'
  | text hkind h =>
      cases h' with
      | number hkind' => rw [hkind'] at hkind; simp at hkind
      | integer hkind' => rw [hkind'] at hkind; simp at hkind
      | text _ h' => exact Except.ok.inj (h.symm.trans h')

theorem Fields.Shows.unique {fields : Fields} {scope : Scope} {line : List Field}
    {texts others : List String} (h : fields.Shows scope line texts)
    (h' : fields.Shows scope line others) : texts = others := by
  refine List.right_unique_forall₂' ?_ h h'
  rintro entry text other ⟨spec, hspec, hshows⟩ ⟨spec', hspec', hshows'⟩
  cases hspec.symm.trans hspec'
  exact hshows.unique hshows'

/-- The texts of a line are determined, and so is their number. -/
theorem Body.Translation.unique {schema : Schema} {scope : Scope} {rows : Option Rows}
    {lines : List Line} {texts others : List (List String)}
    (h : Translation schema scope rows lines texts)
    (h' : Translation schema scope rows lines others) : texts = others := by
  induction h generalizing others with
  | nil =>
      cases h'
      rfl
  | key hfound htexts _ ih =>
      cases h' with
      | key hfound' htexts' h' =>
          cases hfound.symm.trans hfound'
          rw [htexts.unique htexts', ih h']
      | row hnone => cases hfound.symm.trans hnone
  | row hnone htexts _ ih =>
      cases h' with
      | key hfound => cases hnone.symm.trans hfound
      | row _ htexts' h' => rw [htexts.unique htexts', ih h']

/-! ## The translation of a body -/

theorem FieldSpec.Converted.shows {spec : FieldSpec} {scope : Scope} {field : Field} {v : Value}
    (h : spec.Converted scope field v) : spec.Shows scope field v.display := by
  cases h with
  | number hkind h => exact .number hkind h
  | integer hkind h => exact .integer hkind h
  | text hkind h => exact .text (.inl hkind) h
  | choice hkind h => exact .text (.inr ⟨_, hkind⟩) h

theorem Fields.Becomes.shows {fields : Fields} {scope : Scope} {line : List Field}
    {values : List Value} (h : fields.Becomes scope line values) :
    fields.Shows scope line (values.map Value.display) := by
  refine List.forall₂_map_right_iff.mpr (h.imp fun entry v hv => ?_)
  obtain ⟨spec, hspec, hconverted⟩ := hv
  exact ⟨spec, hspec, hconverted.shows⟩

theorem Tag.groups_fst (fields : List Field) :
    (groups fields).1 = fields.takeWhile fun field => (TagWord.ofField? field).isNone := by
  induction fields with
  | nil => rfl
  | cons field fields ih =>
      rw [groups, List.takeWhile_cons]
      cases TagWord.ofField? field with
      | none => exact congrArg (field :: ·) ih
      | some word => rfl

/-- The one key that is not shown stands in front of values. -/
theorem Schema.hides_plane (kind : ActionKind) : ∀ line ∈ kind.schema.kinds,
    (line.keyShown = false ↔ line.key = ["offset_plane"]) ∧
      (line.keyShown = false → 1 ≤ line.fields.bounds.least) := by
  cases kind <;> decide

namespace Body

variable {schema : Schema} {scope : Scope} {part : Section}

theorem Section.Of.own_eq (h : part.Of schema) : part.own = part.found.own part.line := by
  have hown := congrArg Section.own h.eq
  rw [hown, sectionOf, Schema.Recognised.own]
  dsimp only
  split
  · exact Tag.groups_fst _
  · rfl

/-- Rows are translated one by one, in front of what comes after them. -/
theorem Translation.rows_append {rows : Option Rows} {lines : List Line}
    (hnone : ∀ line ∈ lines, schema.recognise? line = none) (hdeclared : RowsDeclared rows lines)
    {values : List (List Value)} (h : RowsBecome scope rows lines values) {rest : List Line}
    {texts : List (List String)} (hrest : Translation schema scope rows rest texts) :
    Translation schema scope rows (lines ++ rest)
      ((values.map fun row => row.map Value.display) ++ texts) := by
  cases rows with
  | none =>
      have hlines : lines = [] := hdeclared
      have hvalues : values = [] := h
      rw [hlines, hvalues]
      exact hrest
  | some rows =>
      clear hdeclared
      have hrows : List.Forall₂ (fun line row => rows.fields.Becomes scope line.fields row)
        lines values := h
      clear h
      induction hrows with
      | nil => exact hrest
      | cons hrow _ ih =>
          rw [List.forall_mem_cons] at hnone
          exact .row hnone.1 hrow.shows (ih hnone.2)

/-- The line of a record is shown with its key, but for a key that is hidden. -/
theorem Section.Becomes.shown_eq {kind : ActionKind} (hpart : part.Of kind.schema)
    (hdeclared : part.Declared) {record : Record} (h : part.Becomes scope record) :
    record.shown = (part.found.shownKey ++ record.values.map Value.display) :: record.rowTexts := by
  have hkind := Schema.kind_mem_of_recognise? hpart.found
  obtain ⟨hhidden, hleast⟩ := Schema.hides_plane kind _ hkind
  have hhead : record.shownHead = part.found.shownKey ++ record.values.map Value.display := by
    rw [Record.shownHead, h.keyShown, h.key, Schema.Recognised.shownKey]
    congr 1
    by_cases hkey : part.found.kind.key = ["offset_plane"]
    · rw [if_pos hkey, hhidden.mpr hkey]
      rfl
    · rw [if_neg hkey, if_pos (Bool.eq_true_of_not_eq_false (mt hhidden.mp hkey))]
  have hne : record.shownHead ≠ [] := by
    rw [Record.shownHead, h.keyShown, h.key]
    cases hshown : part.found.kind.keyShown with
    | true =>
        rw [if_pos rfl]
        exact List.append_ne_nil_of_left_ne_nil (kind.schema_isReadable.key _ hkind) _
    | false =>
        have hwidth := hdeclared.width
        rw [Fields.accepts, Bounds.accepts, Bool.and_eq_true, decide_eq_true_iff] at hwidth
        have hlength : record.values.length = part.own.length := by
          rw [← h.values.length_eq, List.length_zipIdx]
        have hpos : 0 < (record.values.map Value.display).length := by
          have hone := hleast hshown
          rw [List.length_map]
          omega
        exact List.append_ne_nil_of_right_ne_nil _ (List.ne_nil_of_length_pos hpos)
  rw [Record.shown, if_neg (by simpa using hne), hhead]

theorem Translation.sections {kind : ActionKind} {parts : List Section} {records : List Record}
    (h : List.Forall₂ (Section.Becomes scope) parts records)
    (hparts : ∀ part ∈ parts, part.Of kind.schema) (hdeclared : ∀ part ∈ parts, part.Declared)
    (rows : Option Rows) :
    Translation kind.schema scope rows (parts.flatMap fun part => part.line :: part.rows)
      (records.flatMap Record.shown) := by
  induction h generalizing rows with
  | nil => exact .nil
  | @cons part record parts records hbecomes _ ih =>
      rw [List.forall_mem_cons] at hparts hdeclared
      have hrest := ih hparts.2 hdeclared.2 part.found.kind.rows
      rw [List.flatMap_cons, List.flatMap_cons, hbecomes.shown_eq hparts.1 hdeclared.1]
      refine .key hparts.1.found ?_ ?_
      · rw [← hparts.1.own_eq]
        exact hbecomes.values.shows
      · exact rows_append hparts.1.rows hdeclared.1.rows hbecomes.rows hrest

/-- What is shown of the records of a body is the body, line by line. -/
theorem translation_of_read {kind : ActionKind} {block : Block} {records : List Record}
    (h : read kind.schema scope block = .ok records) :
    Translation kind.schema scope kind.schema.leadingRows block.body
      (records.flatMap Record.shown) := by
  have houtline := outlineOf_of kind.schema block.body
  obtain ⟨hdeclared, front, rest, rfl, hfront, hrest⟩ := (read_eq_ok_iff houtline).mp h
  have hsections := Translation.sections hrest houtline.sections hdeclared.sections
    kind.schema.leadingRows
  have hleading := hdeclared.leading
  rw [← houtline.lines, Outline.lines, List.flatMap_append]
  generalize kind.schema.leadingRows = rows at hfront hsections hleading ⊢
  cases hfront with
  | none => exact Translation.rows_append houtline.leading hleading rfl hsections
  | some hvalues =>
      have hshown : ∀ values, [Record.mk [] [] values [] false block.number].flatMap Record.shown =
          values.map fun row => row.map Value.display := fun values => List.append_nil _
      rw [hshown]
      exact Translation.rows_append houtline.leading hleading hvalues hsections

end Body

/-! ## The lines of the file -/

/-- A raw line is split into these texts. -/
def SplitsInto (raw : List Char) (texts : List String) : Prop :=
  ∃ fields, splitLine raw = .ok fields ∧ fields.map Field.text = texts

/-- A row is split into its texts exactly when it starts with no mark. -/
theorem splitsInto_rowText_iff {row : List String} (hne : row ≠ []) :
    SplitsInto (rowText row) row ↔ ¬IsMarkedRow row := by
  obtain ⟨text, texts, rfl⟩ := List.exists_cons_of_ne_nil hne
  constructor
  · rintro ⟨fields, hsplit, htexts⟩ hmark
    have hfields : fields ≠ [] := by
      rintro rfl
      contradiction
    obtain ⟨field, rest, rfl⟩ := List.exists_cons_of_ne_nil hfields
    have hread : Line.read 1 (rowText (text :: texts)) = some (.ok ⟨1, field :: rest⟩) := by
      rw [Line.read, hsplit]
    have hfewer := Line.marks_lt_of_read hmark hread
    rw [htexts] at hfewer
    exact Nat.lt_irrefl _ hfewer
  · intro hmark
    exact ⟨_, splitLine_row hmark, map_text_ofText _⟩

/-- What is shown of an action is the one translation of its body. -/
theorem Action.FromBlock.translation_iff {action : Action} {scope : Scope} {block : Block}
    (h : action.FromBlock scope block) {kind : ActionKind} {unit : LengthUnit}
    (hof : ofBlock kind scope unit block = .ok action) {texts : List (List String)} :
    Translation kind.schema scope kind.schema.leadingRows block.body texts ↔
      texts = action.shown := by
  obtain ⟨hkind, -, -, -, -⟩ := ofBlock_eq_ok.mp hof
  have hshown : Translation kind.schema scope kind.schema.leadingRows block.body action.shown := by
    rw [← hkind]
    exact translation_of_read h.read
  constructor
  · intro htexts
    exact htexts.unique hshown
  · rintro rfl
    exact hshown

theorem Action.FromBlock.lines_file {action : Action} {scope : Scope} {block : Block}
    (h : action.FromBlock scope block) :
    Text.lines action.file.toList = (action.front ++ action.shown).map rowText := by
  rw [action.toList_file, fileText, lines_rows h.newline_notMem_rows]

namespace Analysis

variable {file source : String} {unit : LengthUnit} {analysis : Analysis}

/-- Every action block has its action, and behind the lines that the schema prescribes the
action file is the one translation of the body of the block: for each line of the body a line
with the key words that are shown and the values of the fields. It is split into these texts
again exactly when it does not start with a bare byte order mark. -/
theorem file_translates (h : ofSource file source unit = .ok analysis) {before after : List Block}
    {block : Block} (hblocks : Block.ofSource source = .ok (before ++ block :: after))
    {kind : ActionKind} (hword : block.keyword = .action kind) :
    ∃ here action texts, Reading.Reads file (.start unit) before here ∧
      analysis.actions[before.countP fun block => block.keyword.isAction]? = some action ∧
      (∀ others, Translation kind.schema here.scope kind.schema.leadingRows block.body others ↔
        others = texts) ∧
      Text.lines action.file.toList = action.front.map rowText ++ texts.map rowText ∧
      ∀ row ∈ texts, SplitsInto (rowText row) row ↔ ¬IsMarkedRow row := by
  obtain ⟨blocks, later, hother, hreads, rfl⟩ := ofSource_eq_ok h
  cases hother.symm.trans hblocks
  obtain ⟨here, action, hbefore, hof, hat⟩ := hreads.exists_ofBlock rfl hword
  have hblock : block ∈ before ++ block :: after := List.mem_append_right _ List.mem_cons_self
  have hfrom := fromBlock_of_reads hblocks hblock hbefore hof
  refine ⟨here, action, action.shown, hbefore, hat, fun _ => hfrom.translation_iff hof, ?_, ?_⟩
  · rw [hfrom.lines_file, List.map_append]
  · intro row hrow
    exact splitsInto_rowText_iff (hfrom.shown_of_mem hrow).1

/-- A sketch with a spline whose rows differ in width. -/
def splineTimeline : String :=
  "parameters\nr, 10\nsketch, f, s\noffset_plane, z, 0\nspline, co_rail, rim\n" ++
    "0, 0\n$r, 5, 90, $r / 2\n"

theorem exists_file_translates_spline : ∃ analysis before block after,
    ofSource "t.txt" splineTimeline .mm = .ok analysis ∧
      Block.ofSource splineTimeline = .ok (before ++ block :: after) ∧
      block.keyword = .action .sketch ∧
      ∃ here action texts, Reading.Reads "t.txt" (.start .mm) before here ∧
        analysis.actions[before.countP fun block => block.keyword.isAction]? = some action ∧
        (∀ others, Translation Schema.sketch here.scope none block.body others ↔
          others = texts) ∧
        Text.lines action.file.toList = action.front.map rowText ++ texts.map rowText ∧
        ∀ row ∈ texts, SplitsInto (rowText row) row ↔ ¬IsMarkedRow row := by
  have hok : (ofSource "t.txt" splineTimeline .mm).isOk = true := by decide +kernel
  have hwords : (Block.ofSource splineTimeline).toOption.map (fun blocks =>
      blocks.map Block.keyword) = some [.parameters, .action .sketch] := by decide +kernel
  obtain ⟨analysis, hanalysis⟩ := exists_of_isOk hok
  obtain ⟨blocks, -, hblocks, -, -⟩ := ofSource_eq_ok hanalysis
  rw [hblocks] at hwords
  obtain ⟨first, rest, rfl, -, hrest⟩ := List.map_eq_cons_iff.mp (Option.some.inj hwords)
  obtain ⟨block, rfl, hword⟩ := List.map_eq_singleton_iff.mp hrest
  exact ⟨analysis, [first], block, [], hanalysis, hblocks, hword,
    file_translates hanalysis hblocks hword⟩

example : (ofSource "t.txt" splineTimeline .mm).toOption.map (fun analysis =>
    analysis.actions.map Action.shown) =
      some [[["z", "0"], ["spline"], ["0", "0"], ["10", "5", "90", "5"]]] := by
  decide +kernel

/-- Not every line of an action file is split into the texts of the body line that it stands
for. -/
theorem exists_file_not_split : ∃ analysis before block after kind here action texts,
    ofSource "t.txt" markedRow .mm = .ok analysis ∧
      Block.ofSource markedRow = .ok (before ++ block :: after) ∧
      block.keyword = .action kind ∧ Reading.Reads "t.txt" (.start .mm) before here ∧
      Action.ofBlock kind here.scope here.unit block = .ok action ∧
      (∀ others, Translation kind.schema here.scope kind.schema.leadingRows block.body others ↔
        others = texts) ∧
      ¬List.Forall₂ SplitsInto ((Text.lines action.file.toList).drop action.front.length)
        texts := by
  have hmarked : ((ofSource "t.txt" markedRow .mm).toOption.any fun analysis =>
      analysis.actions.any fun action => action.shown.any fun row => decide (IsMarkedRow row)) =
        true := by
    decide +kernel
  obtain ⟨analysis, hanalysis, hany⟩ := exists_of_toOption_any hmarked
  obtain ⟨action, hmem, hrow⟩ := List.any_eq_true.mp hany
  obtain ⟨row, hrow, hmark⟩ := List.any_eq_true.mp hrow
  obtain ⟨before, block, after, here, kind, hblocks, hreads, hword, hof⟩ :=
    exists_block_of_mem_actions hanalysis hmem
  have hblock : block ∈ before ++ block :: after :=
    List.mem_append_right _ List.mem_cons_self
  have hfrom := fromBlock_of_reads hblocks hblock hreads hof
  refine ⟨analysis, before, block, after, kind, here, action, action.shown, hanalysis, hblocks,
    hword, hreads, hof, fun _ => hfrom.translation_iff hof, fun hsplit => ?_⟩
  rw [hfrom.lines_file, List.map_append, List.drop_left' (List.length_map _),
    List.forall₂_map_left_iff, List.forall₂_same] at hsplit
  exact (splitsInto_rowText_iff (hfrom.shown_of_mem hrow).1).mp (hsplit row hrow)
    (of_decide_eq_true hmark)

end Analysis

end CadTimeline
