import CadTimeline.Analysis
import CadTimeline.Proofs.Except

/-!
# Reading block by block

What one block adds to what has been read, and where the actions and the cross rails
of an analysis come from.
-/

namespace CadTimeline

theorem Action.ofBlock_eq_ok {kind : ActionKind} {scope : Scope} {unit : LengthUnit}
    {block : Block} {action : Action} :
    ofBlock kind scope unit block = .ok action ↔
      action.kind = kind ∧ action.unit = unit ∧ action.line = block.number ∧
        Destination.ofHeader scope block.header = .ok action.destination ∧
        Body.read kind.schema scope block = .ok action.records := by
  simp only [ofBlock_eq, bind_eq_ok, mapError_eq_ok, pure_eq_ok]
  constructor
  · rintro ⟨destination, hheader, records, hbody, rfl⟩
    exact ⟨rfl, rfl, rfl, hheader, hbody⟩
  · rintro ⟨rfl, rfl, hline, hheader, hbody⟩
    exact ⟨_, hheader, _, hbody, by rw [← hline]⟩

end CadTimeline

namespace CadTimeline.Reading

/-- What a block can do. -/
inductive Step (reading : Reading) (block : Block) : Reading → Prop
  | parameters {table : ParameterTable} (hword : block.keyword = .parameters)
      (h : readParameters reading.parameters block = .ok table) :
      Step reading block { reading with parameters := table }
  | units {unit : LengthUnit} (hword : block.keyword = .units) (hbody : block.body = [])
      (h : readUnit reading.scope block.header = .ok unit) :
      Step reading block { reading with unit }
  | echo {message : String} (hword : block.keyword = .echo) (hbody : block.body = [])
      (h : readEcho reading.scope block.header = .ok message) :
      Step reading block { reading with echoes := reading.echoes ++ [message] }
  | crossRails {rails : CrossRails} (hword : block.keyword = .crossRails)
      (h : CrossRails.ofBlock reading.scope block = .ok rails) :
      Step reading block
        { reading with crossRails := reading.crossRails ++ [(rails, reading.unit)] }
  | action {kind : ActionKind} {action : Action} (hword : block.keyword = .action kind)
      (h : Action.ofBlock kind reading.scope reading.unit block = .ok action) :
      Step reading block { reading with actions := reading.actions ++ [action] }

theorem checkNoBody_eq_ok {block : Block} : checkNoBody block = .ok () ↔ block.body = [] := by
  unfold checkNoBody
  cases block.body <;> simp

theorem foldlM_of_readParameters {table next : ParameterTable} {block : Block}
    (h : readParameters table block = .ok next) : block.body.foldlM defineLine table = .ok next := by
  unfold readParameters at h
  split at h
  · exact h
  · contradiction

theorem step_eq_ok {reading later : Reading} {block : Block}
    (h : reading.step block = .ok later) : Step reading block later := by
  unfold step at h
  cases hword : block.keyword with
  | parameters =>
      simp only [hword, bind_eq_ok, pure_eq_ok] at h
      obtain ⟨table, htable, rfl⟩ := h
      exact .parameters hword htable
  | units =>
      simp only [hword, bind_eq_ok, pure_eq_ok, mapError_eq_ok] at h
      obtain ⟨_, hbody, unit, hunit, rfl⟩ := h
      exact .units hword (checkNoBody_eq_ok.mp hbody) hunit
  | echo =>
      simp only [hword, bind_eq_ok, pure_eq_ok, mapError_eq_ok] at h
      obtain ⟨_, hbody, message, hmessage, rfl⟩ := h
      exact .echo hword (checkNoBody_eq_ok.mp hbody) hmessage
  | crossRails =>
      simp only [hword, bind_eq_ok, pure_eq_ok] at h
      obtain ⟨rails, hrails, rfl⟩ := h
      exact .crossRails hword hrails
  | action kind =>
      simp only [hword, bind_eq_ok, pure_eq_ok] at h
      obtain ⟨action, haction, rfl⟩ := h
      exact .action hword haction

section

variable {reading later : Reading} {block : Block}

theorem Step.of_parameters (h : Step reading block later) (hword : block.keyword = .parameters) :
    ∃ table, readParameters reading.parameters block = .ok table ∧
      later = { reading with parameters := table } := by
  cases h with
  | parameters _ htable => exact ⟨_, htable, rfl⟩
  | _ => simp_all

theorem Step.of_units (h : Step reading block later) (hword : block.keyword = .units) :
    ∃ unit, readUnit reading.scope block.header = .ok unit ∧ later = { reading with unit } := by
  cases h with
  | units _ _ hunit => exact ⟨_, hunit, rfl⟩
  | _ => simp_all

theorem Step.of_action (h : Step reading block later) {kind : ActionKind}
    (hword : block.keyword = .action kind) :
    ∃ action, Action.ofBlock kind reading.scope reading.unit block = .ok action ∧
      later = { reading with actions := reading.actions ++ [action] } := by
  cases h with
  | action hother haction =>
      cases hother.symm.trans hword
      exact ⟨_, haction, rfl⟩
  | _ => simp_all

end

/-- Some blocks read one after the other. -/
def Reads (file : String) (reading : Reading) (blocks : List Block) (later : Reading) : Prop :=
  blocks.foldlM (Analysis.readBlock file) reading = .ok later

theorem readBlock_eq_ok {file : String} {reading later : Reading} {block : Block} :
    Analysis.readBlock file reading block = .ok later ↔ reading.step block = .ok later :=
  mapError_eq_ok

theorem Reads.cons {file : String} {reading later : Reading} {block : Block} {blocks : List Block} :
    Reads file reading (block :: blocks) later ↔
      ∃ next, reading.step block = .ok next ∧ Reads file next blocks later := by
  rw [Reads, foldlM_cons_eq_ok]
  simp only [readBlock_eq_ok, Reads]

/-- Induction over the blocks that are read, where each step comes before the others. -/
@[elab_as_elim]
theorem Reads.head_induction {file : String} {later : Reading}
    {motive : ∀ reading blocks, Reads file reading blocks later → Prop}
    (nil : motive later [] rfl)
    (cons : ∀ {reading next block blocks} (hstep : reading.step block = .ok next)
      (hrest : Reads file next blocks later), motive next blocks hrest →
        motive reading (block :: blocks) (Reads.cons.mpr ⟨next, hstep, hrest⟩))
    {reading : Reading} {blocks : List Block} (h : Reads file reading blocks later) :
    motive reading blocks h := by
  induction h using foldlM_induction with
  | nil => exact nil
  | cons hstep hrest ih => exact cons (readBlock_eq_ok.mp hstep) hrest ih

theorem Reads.append {file : String} {reading later : Reading} {blocks more : List Block} :
    Reads file reading (blocks ++ more) later ↔
      ∃ middle, Reads file reading blocks middle ∧ Reads file middle more later := by
  simp only [Reads, List.foldlM_append, bind_eq_ok]

/-- Each block is read on top of the blocks before it. -/
theorem Reads.exists_step {file : String} {reading later : Reading} {before after : List Block}
    {block : Block} (h : Reads file reading (before ++ block :: after) later) :
    ∃ here next, Reads file reading before here ∧ Step here block next ∧
      Reads file next after later := by
  obtain ⟨here, hbefore, hrest⟩ := Reads.append.mp h
  obtain ⟨next, hstep, hafter⟩ := Reads.cons.mp hrest
  exact ⟨here, next, hbefore, step_eq_ok hstep, hafter⟩

/-- An action was read before, or it is the action of one of the blocks, in the scope
that the blocks before it leave. -/
theorem Reads.mem_actions {file : String} {reading later : Reading} {blocks : List Block}
    (h : Reads file reading blocks later) {action : Action} (hmem : action ∈ later.actions) :
    action ∈ reading.actions ∨ ∃ before block after here kind,
      blocks = before ++ block :: after ∧ Reads file reading before here ∧
      block.keyword = .action kind ∧
      Action.ofBlock kind here.scope here.unit block = .ok action := by
  induction h using Reads.head_induction with
  | nil => exact .inl hmem
  | cons hstep _ ih =>
      rcases ih with hold | ⟨before, b, after, here, kind, rfl, hbefore, hword, hof⟩
      · cases step_eq_ok hstep with
        | action hword hof =>
            rcases List.mem_append.mp hold with hold | hnew
            · exact .inl hold
            · rw [List.mem_singleton.mp hnew]
              exact .inr ⟨[], _, _, _, _, rfl, rfl, hword, hof⟩
        | _ => exact .inl hold
      · exact .inr ⟨_ :: before, b, after, here, kind, rfl,
          Reads.cons.mpr ⟨_, hstep, hbefore⟩, hword, hof⟩

theorem Reads.mem_crossRails {file : String} {reading later : Reading} {blocks : List Block}
    (h : Reads file reading blocks later) {rails : CrossRails × LengthUnit}
    (hmem : rails ∈ later.crossRails) :
    rails ∈ reading.crossRails ∨ ∃ before block after here,
      blocks = before ++ block :: after ∧ Reads file reading before here ∧
      block.keyword = .crossRails ∧ here.unit = rails.2 ∧
      CrossRails.ofBlock here.scope block = .ok rails.1 := by
  induction h using Reads.head_induction with
  | nil => exact .inl hmem
  | cons hstep _ ih =>
      rcases ih with hold | ⟨before, b, after, here, rfl, hbefore, hword, hof⟩
      · cases step_eq_ok hstep with
        | crossRails hword hof =>
            rcases List.mem_append.mp hold with hold | hnew
            · exact .inl hold
            · rw [List.mem_singleton.mp hnew]
              exact .inr ⟨[], _, _, _, rfl, rfl, hword, rfl, hof⟩
        | _ => exact .inl hold
      · exact .inr ⟨_ :: before, b, after, here, rfl,
          Reads.cons.mpr ⟨_, hstep, hbefore⟩, hword, hof⟩

end CadTimeline.Reading

namespace CadTimeline.Analysis

open Reading

theorem ofSource_eq_ok {file source : String} {unit : LengthUnit} {analysis : Analysis}
    (h : ofSource file source unit = .ok analysis) :
    ∃ blocks later, Block.ofSource source = .ok blocks ∧
      Reads file (start unit) blocks later ∧ later.finish file = analysis := by
  simp only [ofSource, ofBlocks, bind_eq_ok, mapError_eq_ok, map_eq_ok] at h
  obtain ⟨blocks, hblocks, later, hlater, hfinish⟩ := h
  exact ⟨blocks, later, hblocks, hlater, hfinish⟩

/-- Every action of an analysis comes from a block of its source. -/
theorem exists_block_of_mem_actions {file source : String} {unit : LengthUnit}
    {analysis : Analysis} (h : ofSource file source unit = .ok analysis) {action : Action}
    (hmem : action ∈ analysis.actions) :
    ∃ before block after here kind, Block.ofSource source = .ok (before ++ block :: after) ∧
      Reads file (start unit) before here ∧ block.keyword = .action kind ∧
      Action.ofBlock kind here.scope here.unit block = .ok action := by
  obtain ⟨blocks, later, hblocks, hlater, rfl⟩ := ofSource_eq_ok h
  rcases hlater.mem_actions hmem with hnone | ⟨before, block, after, here, kind, rfl, hrest⟩
  · exact absurd hnone List.not_mem_nil
  · exact ⟨before, block, after, here, kind, hblocks, hrest⟩

theorem exists_block_of_mem_crossRails {file source : String} {unit : LengthUnit}
    {analysis : Analysis} (h : ofSource file source unit = .ok analysis)
    {rails : CrossRails × LengthUnit} (hmem : rails ∈ analysis.crossRails) :
    ∃ before block after here, Block.ofSource source = .ok (before ++ block :: after) ∧
      Reads file (start unit) before here ∧ block.keyword = .crossRails ∧
      here.unit = rails.2 ∧ CrossRails.ofBlock here.scope block = .ok rails.1 := by
  obtain ⟨blocks, later, hblocks, hlater, rfl⟩ := ofSource_eq_ok h
  rcases hlater.mem_crossRails hmem with hnone | ⟨before, block, after, here, rfl, hrest⟩
  · exact absurd hnone List.not_mem_nil
  · exact ⟨before, block, after, here, hblocks, hrest⟩

/-- A source is read from its characters. The kernel takes a text in pieces apart faster than one
long text, so fixed sources are evaluated with this and the characters of their pieces. -/
theorem ofSource_eq (file source : String) (unit : LengthUnit) :
    ofSource file source unit =
      ((((Block.entries (Line.ofSource source.toList)).mapM Block.Entry.toBlock).mapError
        (LineIssue.inFile file "")) >>= ofBlocks file unit) :=
  rfl

end CadTimeline.Analysis
