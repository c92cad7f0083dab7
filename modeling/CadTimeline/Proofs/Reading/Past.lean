import CadTimeline.Proofs.Reading.Names
import CadTimeline.Proofs.Reading.Units
import CadTimeline.Proofs.Timeline.Append

/-!
# Earlier and later blocks

Reading a block only adds to what has been read. So a timeline behind another one changes
nothing about it, and what a block is read as depends on the blocks before it alone.
-/

namespace CadTimeline

namespace Reading

/-- The later reading has all of the earlier one, and perhaps more behind it. -/
structure Grows (reading later : Reading) : Prop where
  parameters : reading.parameters.entries <+: later.parameters.entries
  actions : reading.actions <+: later.actions
  crossRails : reading.crossRails <+: later.crossRails
  echoes : reading.echoes <+: later.echoes

variable {reading later : Reading} {block : Block} {file : String} {blocks : List Block}

theorem Grows.refl (reading : Reading) : reading.Grows reading :=
  ⟨List.prefix_rfl, List.prefix_rfl, List.prefix_rfl, List.prefix_rfl⟩

theorem Grows.trans {middle : Reading} (h : reading.Grows middle) (h' : middle.Grows later) :
    reading.Grows later :=
  ⟨h.parameters.trans h'.parameters, h.actions.trans h'.actions,
    h.crossRails.trans h'.crossRails, h.echoes.trans h'.echoes⟩

theorem entries_grow_of_foldlM {table next : ParameterTable} {lines : List Line}
    (h : lines.foldlM defineLine table = .ok next) : table.entries <+: next.entries := by
  induction h using foldlM_induction with
  | nil => exact List.prefix_rfl
  | cons hmiddle _ ih =>
      obtain ⟨_, _, _, -, -, rfl⟩ := defineLine_eq_ok hmiddle
      exact (List.prefix_append _ _).trans ih

theorem Step.grows (h : Step reading block later) : reading.Grows later := by
  have hself := Grows.refl reading
  cases h with
  | parameters _ htable =>
      have hentries := entries_grow_of_foldlM (foldlM_of_readParameters htable)
      exact { hself with parameters := hentries }
  | units => exact ⟨hself.parameters, hself.actions, hself.crossRails, hself.echoes⟩
  | echo => exact { hself with echoes := List.prefix_append _ _ }
  | crossRails => exact { hself with crossRails := List.prefix_append _ _ }
  | action => exact { hself with actions := List.prefix_append _ _ }

theorem Reads.grows (h : Reads file reading blocks later) : reading.Grows later := by
  induction h using Reads.head_induction with
  | nil => exact Grows.refl _
  | cons hstep _ ih => exact (step_eq_ok hstep).grows.trans ih

/-- There is an action for each block of an action. -/
theorem Reads.length_actions (h : Reads file reading blocks later) :
    later.actions.length =
      reading.actions.length + blocks.countP fun block => block.keyword.isAction := by
  induction h using Reads.head_induction with
  | nil => rfl
  | cons hstep _ ih =>
      rw [ih, List.countP_cons]
      cases step_eq_ok hstep with
      | action hword => simp [hword, Keyword.isAction, Nat.add_assoc, Nat.add_comm]
      | parameters hword => simp [hword, Keyword.isAction]
      | units hword => simp [hword, Keyword.isAction]
      | echo hword => simp [hword, Keyword.isAction]
      | crossRails hword => simp [hword, Keyword.isAction]

/-- The action of a block stands behind those of the blocks before it, and is read in their
scope. -/
theorem Reads.exists_ofBlock {before rest : List Block} {kind : ActionKind}
    (h : Reads file reading (before ++ block :: rest) later) (hnone : reading.actions = [])
    (hword : block.keyword = .action kind) :
    ∃ here action, Reads file reading before here ∧
      Action.ofBlock kind here.scope here.unit block = .ok action ∧
      later.actions[before.countP fun block => block.keyword.isAction]? = some action := by
  obtain ⟨here, next, hbefore, hstep, hafter⟩ := h.exists_step
  obtain ⟨action, haction, rfl⟩ := hstep.of_action hword
  have hcount : here.actions.length = before.countP fun block => block.keyword.isAction := by
    rw [hbefore.length_actions, hnone, List.length_nil, Nat.zero_add]
  obtain ⟨tail, htail⟩ := hafter.grows.actions
  refine ⟨here, action, hbefore, haction, ?_⟩
  rw [← htail, ← hcount, List.append_assoc, List.getElem?_append_right (Nat.le_refl _),
    Nat.sub_self]
  rfl

/-- The action of a block has the unit of the blocks before it. -/
theorem Reads.exists_action {before rest : List Block} {kind : ActionKind}
    (h : Reads file reading (before ++ block :: rest) later)
    (hfinite : reading.parameters.IsFinite) (hnone : reading.actions = [])
    (hword : block.keyword = .action kind) :
    ∃ action, later.actions[before.countP fun block => block.keyword.isAction]? = some action ∧
      action.kind = kind ∧ action.line = block.number ∧
        action.unit = reading.unit.after before := by
  obtain ⟨here, action, hbefore, haction, hat⟩ := h.exists_ofBlock hnone hword
  obtain ⟨hkind, hunit, hline, -, -⟩ := Action.ofBlock_eq_ok.mp haction
  exact ⟨action, hat, hkind, hline, hunit.trans (hbefore.unit_eq hfinite)⟩

end Reading

namespace Analysis

open Reading

/-- What one analysis says, the other one says first. -/
structure IsFront (earlier later : Analysis) : Prop where
  parameters : earlier.parameters.entries <+: later.parameters.entries
  actions : earlier.actions <+: later.actions
  crossRails : earlier.crossRails <+: later.crossRails
  echoes : earlier.echoes <+: later.echoes

variable {file first second source : String} {unit : LengthUnit}

theorem ofSource_eq_error {complaint : Complaint} :
    ofSource file source unit = .error complaint ↔
      (∃ issue, Block.ofSource source = .error issue ∧ issue.inFile file "" = complaint) ∨
      ∃ blocks, Block.ofSource source = .ok blocks ∧
        blocks.foldlM (readBlock file) (start unit) = .error complaint := by
  unfold ofSource ofBlocks
  cases hblocks : Block.ofSource source with
  | error issue => simp [Except.mapError, bind, Except.bind]
  | ok blocks =>
      cases hread : blocks.foldlM (readBlock file) (start unit) with
      | error other => simp [Except.mapError, bind, Except.bind, Except.map, hread]
      | ok later => simp [Except.mapError, bind, Except.bind, Except.map, hread]

/-- What fails on its own fails with the same complaint when more stands behind it. -/
theorem ofSource_append_error (h : Block.Continues first second) {complaint : Complaint}
    (hfirst : ofSource file first unit = .error complaint) :
    ofSource file (first ++ second) unit = .error complaint := by
  rw [ofSource_eq_error] at hfirst ⊢
  rcases hfirst with ⟨issue, hissue, heq⟩ | ⟨blocks, hblocks, hread⟩
  · exact .inl ⟨issue, h.ofSource_error hissue, heq⟩
  · have hne : blocks ≠ [] := by
      rintro rfl
      contradiction
    obtain ⟨more, hmore⟩ := h.ofSource_ok hne hblocks
    refine .inr ⟨blocks ++ more, hmore, ?_⟩
    rw [List.foldlM_append, hread]
    rfl

theorem ofSource_append_ok (h : Block.Continues first second) {analysis : Analysis}
    (hboth : ofSource file (first ++ second) unit = .ok analysis) :
    ∃ earlier, ofSource file first unit = .ok earlier ∧ earlier.IsFront analysis := by
  cases hfirst : ofSource file first unit with
  | error complaint =>
      rw [ofSource_append_error h hfirst] at hboth
      contradiction
  | ok earlier =>
      refine ⟨earlier, rfl, ?_⟩
      obtain ⟨blocks, here, hblocks, hreads, rfl⟩ := ofSource_eq_ok hfirst
      obtain ⟨all, later, hall, hlater, rfl⟩ := ofSource_eq_ok hboth
      have hgrows : here.Grows later := by
        by_cases hne : blocks = []
        · subst hne
          cases hreads
          exact hlater.grows
        · obtain ⟨more, hmore⟩ := h.ofSource_ok hne hblocks
          cases hall.symm.trans hmore
          obtain ⟨middle, hmiddle, hrest⟩ := Reads.append.mp hlater
          cases hreads.symm.trans hmiddle
          exact hrest.grows
      exact ⟨hgrows.parameters, hgrows.actions, hgrows.crossRails, hgrows.echoes⟩

/-- A reference to what is not defined before it fails. -/
theorem exists_error_of_refers {before after : List Block} {block : Block} {name : String}
    {own : List String} (hsource : Block.ofSource source = .ok (before ++ block :: after))
    (hrefers : block.Refers name own) (hname : name ∉ before.flatMap Block.defines ++ own) :
    ∃ complaint, ofSource file source unit = .error complaint := by
  cases hanalysis : ofSource file source unit with
  | error complaint => exact ⟨complaint, rfl⟩
  | ok analysis =>
      obtain ⟨blocks, later, hblocks, hreads, -⟩ := ofSource_eq_ok hanalysis
      cases hsource.symm.trans hblocks
      obtain ⟨here, next, hbefore, hstep, -⟩ := hreads.exists_step
      have hmem := hstep.mem_names hrefers
      rw [hbefore.names_eq] at hmem
      exact absurd hmem hname

theorem units_of_ofSource {analysis : Analysis} (h : ofSource file source unit = .ok analysis) :
    ∃ blocks, Block.ofSource source = .ok blocks ∧
      (∀ block ∈ blocks, block.keyword = .units → block.unit?.isSome = true) ∧
      analysis.actions.length = (blocks.countP fun block => block.keyword.isAction) ∧
      ∀ before block after kind, blocks = before ++ block :: after →
        block.keyword = .action kind →
        ∃ action, analysis.actions[before.countP fun block => block.keyword.isAction]? =
            some action ∧
          action.kind = kind ∧ action.line = block.number ∧ action.unit = unit.after before := by
  obtain ⟨blocks, later, hblocks, hreads, rfl⟩ := ofSource_eq_ok h
  refine ⟨blocks, hblocks, fun block hblock hword => ?_, ?_, ?_⟩
  · obtain ⟨before, after, rfl⟩ := List.append_of_mem hblock
    obtain ⟨here, next, hbefore, hstep, -⟩ := hreads.exists_step
    exact hstep.isSome_unit? (hbefore.isFinite (isFinite_start unit)) hword
  · rw [finish, hreads.length_actions]
    exact Nat.zero_add _
  · rintro before block after kind rfl hword
    exact hreads.exists_action (isFinite_start unit) rfl hword

/-- A timeline that another one goes on behind is read as on its own: it fails with the same
complaint, and all that it says comes first. So a reference to a parameter that is not defined
before it fails, and the unit of an action is the one that the last `units` block before it
names, or the one that holds from the start. -/
theorem ofSource_past (file : String) (unit : LengthUnit) :
    (∀ first second, Block.Continues first second →
      (∀ analysis, ofSource file (first ++ second) unit = .ok analysis →
        ∃ earlier, ofSource file first unit = .ok earlier ∧ earlier.IsFront analysis) ∧
      ∀ complaint, ofSource file first unit = .error complaint →
        ofSource file (first ++ second) unit = .error complaint) ∧
    (∀ source before block after name own, Block.ofSource source = .ok (before ++ block :: after) →
      block.Refers name own → name ∉ before.flatMap Block.defines ++ own →
      ∃ complaint, ofSource file source unit = .error complaint) ∧
    ∀ source analysis, ofSource file source unit = .ok analysis →
      ∃ blocks, Block.ofSource source = .ok blocks ∧
        (∀ block ∈ blocks, block.keyword = .units → block.unit?.isSome = true) ∧
        analysis.actions.length = (blocks.countP fun block => block.keyword.isAction) ∧
        ∀ before block after kind, blocks = before ++ block :: after →
          block.keyword = .action kind →
          ∃ action, analysis.actions[before.countP fun block => block.keyword.isAction]? =
              some action ∧
            action.kind = kind ∧ action.line = block.number ∧
              action.unit = unit.after before := by
  refine ⟨fun first second h => ⟨fun analysis hboth => ?_, fun complaint hfirst => ?_⟩, ?_, ?_⟩
  · exact ofSource_append_ok h hboth
  · exact ofSource_append_error h hfirst
  · exact fun _ _ _ _ _ _ hsource hrefers hname => exists_error_of_refers hsource hrefers hname
  · exact fun _ _ h => units_of_ofSource h

/-- A sketch in centimetres. -/
def sketchSource : String :=
  "units, cm\nparameters\nw, 2\nsketch, s, a\noffset_plane, z, $w\nline\n0, 0\n1, $w\n"

/-- Another sketch, in metres. -/
def laterSource : String :=
  "units, m\nsketch, s, b\noffset_plane, z, 0\nline\n0, 0\n1, 1\n"

theorem continues_laterSource : Block.Continues sketchSource laterSource where
  ended := by decide +kernel
  splits := by decide +kernel
  laterSplits := by decide +kernel
  opens := by
    intro blocks _ block _ line hline
    have hkeyword : (Line.ofSource laterSource.toList).head?.bind
        (fun item => item.toOption.bind Block.keyword?) = some .units := by decide +kernel
    rw [hline] at hkeyword
    exact Block.opens_of_keyword? hkeyword nofun block.keyword

theorem exists_front_of_laterSource :
    ∃ analysis earlier, ofSource "t.txt" (sketchSource ++ laterSource) .mm = .ok analysis ∧
      ofSource "t.txt" sketchSource .mm = .ok earlier ∧ earlier.IsFront analysis := by
  have hboth : (ofSource "t.txt" (sketchSource ++ laterSource) .mm).isOk = true := by
    decide +kernel
  obtain ⟨analysis, hanalysis⟩ := exists_of_isOk hboth
  obtain ⟨happend, -⟩ := ofSource_past "t.txt" .mm
  obtain ⟨earlier, hearlier, hfront⟩ :=
    (happend sketchSource laterSource continues_laterSource).1 analysis hanalysis
  exact ⟨analysis, earlier, hanalysis, hearlier, hfront⟩

end Analysis

end CadTimeline
