import CadTimeline.Proofs.Action.ReadBack
import CadTimeline.Proofs.Output.Header
import CadTimeline.Proofs.Record.SourceLines

/-!
# Actions as timelines

An action is written as a block of its own: a header with the destination, then the lines of
its records, with every text between quotes. Read without parameters and in the unit of the
action, the block is the action again, unless the component path looks absolute: then its
header is refused.
-/

namespace CadTimeline

open Body CadTimeline.Field

namespace Action

/-- The fields of a header that names the kind and the destination of the action. -/
def sourceHeader (action : Action) : List Field :=
  ⟨action.kind.word, false⟩ :: action.destination.fields

/-- The lines of a block with the action. -/
def sourceLines (action : Action) : List (List Field) :=
  action.sourceHeader :: action.records.flatMap Record.sourceLines

/-- A timeline with the action alone. -/
def source (action : Action) : String :=
  String.join (action.sourceLines.map fun fields => File.row (fields.map Field.source))

/-- Two actions of one kind in one unit go to one destination and hold the same records. -/
structure Matches (action other : Action) : Prop where
  kind : action.kind = other.kind
  destination : action.destination = other.destination
  unit : action.unit = other.unit
  records : List.Forall₂ Record.Matches action.records other.records

theorem toList_source (action : Action) : action.source.toList = sourceText action.sourceLines := by
  rw [source, String.toList_join, List.flatMap_map, sourceText]
  refine List.flatMap_congr fun fields _ => ?_
  rw [File.row, String.toList_append]
  rfl

/-! ## The header -/

theorem keyword?_sourceHeader (action : Action) (number : Nat) :
    Block.keyword? ⟨number, action.sourceHeader⟩ = some (.action action.kind) :=
  Keyword.ofWord?_word (.action action.kind)

variable {action copy : Action} {scope : Scope} {block : Block}

theorem FromBlock.isSourceLine_sourceHeader (h : action.FromBlock scope block) :
    IsSourceLine action.sourceHeader := by
  have hwords : ∀ kind : ActionKind, Text.needsQuotes kind.word.toList = false ∧
      kind.word.toList.head? ≠ some '\uFEFF' := by
    intro kind
    cases kind <;> decide +kernel
  obtain ⟨hbare, hmark⟩ := hwords action.kind
  obtain ⟨hfolder, hname, hcomponent⟩ := Destination.newline_notMem h.destination h.header
  refine ⟨List.cons_ne_nil _ _, ?_, ?_, ?_⟩
  · refine List.forall_mem_cons.mpr ⟨fun _ => hbare, fun field hfield hplain => ?_⟩
    rw [Destination.quoted_of_mem_fields field hfield] at hplain
    contradiction
  · exact List.forall_mem_cons.mpr
      ⟨action.kind.newline_notMem_word,
        Destination.newline_notMem_fields hfolder hname hcomponent⟩
  · rintro _ ⟨⟩ -
    exact hmark

/-! ## The block -/

theorem FromBlock.exists_ofSource_source (h : action.FromBlock scope block) :
    ∃ other, Block.ofSource action.source = .ok [other] ∧ other.keyword = .action action.kind ∧
      other.header.fields = action.sourceHeader ∧
      other.body.map Line.fields = action.records.flatMap Record.sourceLines := by
  have hlines := isSourceLine_of_read action.kind.schema_isReadable action.kind.keepsBlock h.read
    h.body
  have hall : ∀ fields ∈ action.sourceLines, IsSourceLine fields :=
    List.forall_mem_cons.mpr
      ⟨h.isSourceLine_sourceHeader, fun fields hfields => (hlines fields hfields).1⟩
  obtain ⟨lines, hblocks, hbody⟩ := Block.ofSource_single action.toList_source hall
    (action.keyword?_sourceHeader 1) fun fields hfields => (hlines fields hfields).2
  exact ⟨_, hblocks, rfl, rfl, hbody⟩

/-- The block of an action has that action again exactly when the component path does not look
absolute. -/
theorem FromBlock.exists_matches_iff (h : action.FromBlock scope block) {other : Block}
    (hheader : other.header.fields = action.sourceHeader)
    (hlines : other.body.map Line.fields = action.records.flatMap Record.sourceLines) :
    (∃ copy, ofBlock action.kind Scope.none action.unit other = .ok copy ∧ action.Matches copy) ↔
      Segments.looksAbsolute action.destination.componentPath.toList = false := by
  have hnamed := Destination.isNamed_of_ofHeader h.finite h.destination
  simp only [ofBlock_eq_ok, hnamed.ofHeader_iff _ hheader]
  constructor
  · rintro ⟨copy, ⟨-, -, -, ⟨habsolute, -⟩, -⟩, -⟩
    exact habsolute
  · intro habsolute
    obtain ⟨records, hrecords, hmatches⟩ := exists_read_copied action.kind.schema_isReadable
      action.kind.schema_hasNamedKeys h.finite h.read hlines
    exact ⟨⟨action.kind, action.destination, action.unit, records, other.number⟩,
      ⟨rfl, rfl, rfl, ⟨habsolute, rfl⟩, hrecords⟩, rfl, rfl, rfl, hmatches⟩

end Action

namespace Analysis

open Reading

/-- A source of one block with an action has this action alone. -/
theorem ofSource_eq_ok_of_action {file source : String} {unit : LengthUnit} {block : Block}
    {kind : ActionKind} (hblocks : Block.ofSource source = .ok [block])
    (hword : block.keyword = .action kind) {analysis : Analysis} :
    ofSource file source unit = .ok analysis ↔
      ∃ action, Action.ofBlock kind Scope.none unit block = .ok action ∧
        analysis = ⟨file, .empty, [action], [], []⟩ := by
  have hscope : (start unit).scope = Scope.none := rfl
  have hstep : ∀ later, (start unit).step block = .ok later ↔
      ∃ action, Action.ofBlock kind Scope.none unit block = .ok action ∧
        later = { start unit with actions := [action] } := by
    intro later
    rw [Reading.step, hword, ← hscope]
    simp only [bind_eq_ok, pure_eq_ok]
    exact exists_congr fun action => and_congr_right' eq_comm
  simp only [ofSource, ofBlocks, hblocks, bind_eq_ok, mapError_eq_ok, map_eq_ok, Except.ok.injEq,
    exists_eq_left', foldlM_cons_eq_ok, readBlock_eq_ok, hstep]
  constructor
  · rintro ⟨later, ⟨_, ⟨action, haction, rfl⟩, hnil⟩, hfinish⟩
    cases hnil
    exact ⟨action, haction, hfinish.symm⟩
  · rintro ⟨action, haction, rfl⟩
    exact ⟨_, ⟨_, ⟨action, haction, rfl⟩, rfl⟩, rfl⟩

/-- An action that is written as a timeline is read again, alone, exactly when its component path
does not look absolute. -/
theorem ofSource_source_iff {file source : String} {unit : LengthUnit} {analysis : Analysis}
    (h : ofSource file source unit = .ok analysis) {action : Action}
    (hmem : action ∈ analysis.actions) (other : String) :
    (∃ copy, ofSource other action.source action.unit = .ok ⟨other, .empty, [copy], [], []⟩ ∧
        action.Matches copy) ↔
      Segments.looksAbsolute action.destination.componentPath.toList = false := by
  obtain ⟨scope, block, hfrom⟩ := exists_fromBlock h hmem
  obtain ⟨written, hblocks, hword, hheader, hlines⟩ := hfrom.exists_ofSource_source
  rw [← hfrom.exists_matches_iff hheader hlines]
  refine exists_congr fun copy => and_congr_left' ?_
  rw [ofSource_eq_ok_of_action hblocks hword]
  constructor
  · rintro ⟨action, haction, heq⟩
    cases heq
    exact haction
  · intro haction
    exact ⟨copy, haction, rfl⟩

/-- A sketch with a parameter, a unit, a component path and rails. -/
def railTimeline : String :=
  "parameters\nr, 10\nunits, cm\nsketch, ./f, \"s \"\"t\"\"\", part\noffset_plane, z, -$r\n" ++
    "line, cross_rails, a, b\n0, 0\n$r / 4, 1e-3\n"

theorem exists_ofSource_source_rails : ∃ analysis action,
    ofSource "t.txt" railTimeline .mm = .ok analysis ∧ action ∈ analysis.actions ∧
      ∃ copy, ofSource "t.txt" action.source action.unit = .ok ⟨"t.txt", .empty, [copy], [], []⟩ ∧
        action.Matches copy := by
  have hrelative : ((ofSource "t.txt" railTimeline .mm).toOption.any fun analysis =>
      analysis.actions.any fun action =>
        !Segments.looksAbsolute action.destination.componentPath.toList) = true := by
    decide +kernel
  obtain ⟨analysis, hread, hany⟩ := exists_of_toOption_any hrelative
  obtain ⟨action, hmem, haction⟩ := List.any_eq_true.mp hany
  rw [Bool.not_eq_true'] at haction
  exact ⟨analysis, action, hread, hmem, (ofSource_source_iff hread hmem "t.txt").mpr haction⟩

example : (ofSource "t.txt" railTimeline .mm).toOption.map (fun analysis =>
    analysis.actions.map Action.source) = some [
      "sketch, \"./f\", \"s \"\"t\"\"\", \"part\"\noffset_plane, \"z\", -10\n" ++
        "line, cross_rails, \"a\", \"b\"\n0, 0\n2.5, 0.001\n"] := by
  decide +kernel

/-- A combination in a component whose first segment has a colon behind one letter. -/
def colonTimeline : String :=
  "combine, ./f, skin, ./c:d\njoin\ntarget_body, a\ntool_bodies\nb\n"

/-- Not every action is read again when it is written as a timeline. -/
theorem exists_action_source_refused : ∃ analysis action,
    ofSource "t.txt" colonTimeline .mm = .ok analysis ∧ action ∈ analysis.actions ∧
      ¬∃ later copy, ofSource "t.txt" action.source action.unit = .ok later ∧
        later.actions = [copy] ∧ action.Matches copy := by
  have hrefused : ((ofSource "t.txt" colonTimeline .mm).toOption.any fun analysis =>
      analysis.actions.any fun action =>
        !(ofSource "t.txt" action.source action.unit).isOk) = true := by
    decide +kernel
  obtain ⟨analysis, hread, hany⟩ := exists_of_toOption_any hrefused
  obtain ⟨action, hmem, haction⟩ := List.any_eq_true.mp hany
  refine ⟨analysis, action, hread, hmem, ?_⟩
  rintro ⟨later, copy, hlater, -⟩
  rw [hlater] at haction
  contradiction

end Analysis

end CadTimeline
