import CadTimeline.Proofs.Rails.Block
import CadTimeline.Proofs.Reading.Past

/-!
# The unit of a cross rail

The points of a cross rail are copied from rows of sketches, number by number, and its own sketch
has the unit that holds at its block. So the points keep their places where this is the unit
that holds at the blocks of these sketches too.
-/

namespace CadTimeline

/-! ## Where the points of a rail come from -/

/-- A record is on a cross rail if one of its tags names the rail. -/
theorem Record.isOnCrossRail_iff {record : Record} {rail : String} :
    record.isOnCrossRail rail = true ↔
      ∃ names, Tag.crossRails names ∈ record.tags ∧ rail ∈ names := by
  rw [isOnCrossRail, List.any_eq_true]
  constructor
  · rintro ⟨tag, hmem, hnames⟩
    cases tag with
    | coRail name => contradiction
    | crossRails names => exact ⟨names, hmem, List.contains_iff_mem.mp hnames⟩
  · rintro ⟨names, hmem, hrail⟩
    exact ⟨.crossRails names, hmem, List.contains_iff_mem.mpr hrail⟩

namespace CrossRails

variable {rails : CrossRails} {rail : String} {offset : Float} {profile : Action} {point : Point}

/-- The point is a row of a sketch: the plane of the sketch has the normal of the profiles, the
segment is tagged with the rail, and the row lies in the plane of the rail. -/
inductive IsCopied (rails : CrossRails) (rail : String) (offset : Float) (profile : Action) :
    Point → Prop
  | row {profileOffset a b : Float} {segment : Record} {row : List Value}
      (hplane : profile.plane? = some (rails.profileNormal, profileOffset))
      (hsegment : segment ∈ profile.segments)
      (htag : ∃ names, .crossRails names ∈ segment.tags ∧ rail ∈ names)
      (hrow : row ∈ segment.rows) (hcoordinates : coordinates? row = some (a, b))
      (hin : ((Point.lift rails.profileNormal profileOffset a b).along rails.railNormal -
        offset).abs < 1e-9) :
      IsCopied rails rail offset profile (Point.lift rails.profileNormal profileOffset a b)

theorem pointInPlane?_eq_some {profileNormal railNormal : Axis} {profileOffset a b : Float} :
    pointInPlane? profileNormal profileOffset railNormal offset a b = some point ↔
      profileNormal ≠ railNormal ∧
        ((Point.lift profileNormal profileOffset a b).along railNormal - offset).abs < 1e-9 ∧
        Point.lift profileNormal profileOffset a b = point := by
  unfold pointInPlane?
  dsimp only
  split
  · simp_all
  · split
    · simp_all
    · simp_all

theorem isCopied_of_mem_profilePoints (h : point ∈ rails.profilePoints rail offset profile) :
    rails.IsCopied rail offset profile point := by
  unfold profilePoints at h
  split at h
  · contradiction
  · rename_i axis profileOffset hplane
    split at h
    · rename_i haxis
      subst haxis
      obtain ⟨segment, hsegment, hpoint⟩ := List.mem_flatMap.mp h
      obtain ⟨hmem, htag⟩ := List.mem_filter.mp hsegment
      obtain ⟨row, hrow, hsome⟩ := List.mem_filterMap.mp hpoint
      obtain ⟨⟨a, b⟩, hcoordinates, hin⟩ := Option.bind_eq_some_iff.mp hsome
      obtain ⟨-, hnear, rfl⟩ := pointInPlane?_eq_some.mp hin
      have htag := Record.isOnCrossRail_iff.mp htag
      exact .row hplane hmem htag hrow hcoordinates hnear
    · contradiction

theorem mem_of_mem_distinct {points : List Point} (h : point ∈ distinct points) :
    point ∈ points := by
  -- What a fold keeps was kept before or is one of the points, whatever was kept before.
  have hkept : ∀ kept, point ∈ points.foldl
      (fun kept p => if kept.any (Point.same · p) then kept else kept ++ [p]) kept →
        point ∈ kept ∨ point ∈ points := by
    clear h
    induction points with
    | nil => exact fun kept hmem => .inl hmem
    | cons p points ih =>
        intro kept hmem
        rcases ih _ hmem with hold | hnew
        · dsimp only at hold
          split at hold
          · exact .inl hold
          · rcases List.mem_append.mp hold with hold | hnew
            · exact .inl hold
            · exact .inr (List.mem_cons.mpr (.inl (List.mem_singleton.mp hnew)))
        · exact .inr (List.mem_cons_of_mem _ hnew)
  exact (hkept [] h).resolve_left List.not_mem_nil

/-- Every point of a rail is copied from a row of a sketch. -/
theorem exists_isCopied_of_mem_points {profiles : List Action}
    (h : point ∈ rails.points profiles rail offset) :
    ∃ profile ∈ profiles, rails.IsCopied rail offset profile point := by
  obtain ⟨profile, hprofile, hmem⟩ := List.mem_flatMap.mp (mem_of_mem_distinct h)
  exact ⟨profile, hprofile, isCopied_of_mem_profilePoints hmem⟩

/-- The sketch has a row that a point of the rail is copied from. -/
def Contributes (rails : CrossRails) (profiles : List Action) (rail : String) (offset : Float)
    (profile : Action) : Prop :=
  ∃ point ∈ rails.points profiles rail offset, rails.IsCopied rail offset profile point

end CrossRails

/-! ## Blocks and what they are read as -/

namespace Reading

variable {reading later : Reading} {block : Block} {file : String} {blocks before rest : List Block}

theorem Step.of_crossRails (h : Step reading block later) (hword : block.keyword = .crossRails) :
    ∃ rails, CrossRails.ofBlock reading.scope block = .ok rails ∧
      later = { reading with crossRails := reading.crossRails ++ [(rails, reading.unit)] } := by
  cases h with
  | crossRails _ hrails => exact ⟨_, hrails, rfl⟩
  | _ => simp_all

theorem Reads.length_crossRails (h : Reads file reading blocks later) :
    later.crossRails.length =
      reading.crossRails.length + blocks.countP fun block => block.keyword = .crossRails := by
  induction h using Reads.head_induction with
  | nil => rfl
  | cons hstep _ ih =>
      rw [ih, List.countP_cons]
      cases step_eq_ok hstep with
      | crossRails hword => simp [hword, Nat.add_assoc, Nat.add_comm]
      | parameters hword => simp [hword]
      | units hword => simp [hword]
      | echo hword => simp [hword]
      | action hword => simp [hword]

/-- The rails of a block stand behind those of the blocks before it, with the unit of these. -/
theorem Reads.exists_crossRails (h : Reads file reading (before ++ block :: rest) later)
    (hfinite : reading.parameters.IsFinite) (hnone : reading.crossRails = [])
    (hword : block.keyword = .crossRails) :
    ∃ here rails, Reads file reading before here ∧
      CrossRails.ofBlock here.scope block = .ok rails ∧
      later.crossRails[before.countP fun block => block.keyword = .crossRails]? =
        some (rails, reading.unit.after before) := by
  obtain ⟨here, next, hbefore, hstep, hafter⟩ := h.exists_step
  obtain ⟨rails, hrails, rfl⟩ := hstep.of_crossRails hword
  have hcount : here.crossRails.length =
      before.countP fun block => block.keyword = .crossRails := by
    rw [hbefore.length_crossRails, hnone, List.length_nil, Nat.zero_add]
  obtain ⟨tail, htail⟩ := hafter.grows.crossRails
  refine ⟨here, rails, hbefore, hrails, ?_⟩
  rw [← htail, ← hcount, List.append_assoc, List.getElem?_append_right (Nat.le_refl _),
    Nat.sub_self, ← hbefore.unit_eq hfinite]
  rfl

end Reading

namespace Analysis

open Reading

variable {file source : String} {unit : LengthUnit} {analysis : Analysis}

/-- The action is the sketch of the block that stands behind these. -/
def IsSketchBehind (analysis : Analysis) (blocks front : List Block) (action : Action) : Prop :=
  ∃ block rest, blocks = front ++ block :: rest ∧ block.keyword = .action .sketch ∧
    analysis.actions[front.countP fun block => block.keyword.isAction]? = some action

/-- A sketch has the unit of the blocks before it. -/
theorem IsSketchBehind.unit_eq (h : ofSource file source unit = .ok analysis)
    {blocks front : List Block} (hblocks : Block.ofSource source = .ok blocks) {action : Action}
    (hbehind : analysis.IsSketchBehind blocks front action) :
    action ∈ analysis.sketches ∧ action.unit = unit.after front := by
  obtain ⟨block, rest, rfl, hword, hat⟩ := hbehind
  obtain ⟨blocks, later, hother, hreads, rfl⟩ := ofSource_eq_ok h
  cases hother.symm.trans hblocks
  obtain ⟨action, hsame, hkind, -, hunit⟩ := hreads.exists_action (isFinite_start unit) rfl hword
  cases hsame.symm.trans hat
  exact ⟨List.mem_filter.mpr ⟨List.mem_of_getElem? hat, decide_eq_true hkind⟩, hunit⟩

theorem exists_isSketchBehind (h : ofSource file source unit = .ok analysis)
    {blocks : List Block} (hblocks : Block.ofSource source = .ok blocks) {action : Action}
    (hmem : action ∈ analysis.sketches) :
    ∃ front, analysis.IsSketchBehind blocks front action := by
  obtain ⟨hmem, hkind⟩ := List.mem_filter.mp hmem
  obtain ⟨front, block, rest, here, kind, hother, hhere, hword, hof⟩ :=
    exists_block_of_mem_actions h hmem
  cases hother.symm.trans hblocks
  obtain ⟨_, later, hlater, hreads, rfl⟩ := ofSource_eq_ok h
  cases hother.symm.trans hlater
  obtain ⟨there, same, hthere, hsame, hat⟩ := hreads.exists_ofBlock rfl hword
  cases hhere.symm.trans hthere
  cases hof.symm.trans hsame
  have heq := (Action.ofBlock_eq_ok.mp hof).1
  exact ⟨front, block, rest, rfl, by rw [hword, ← heq, of_decide_eq_true hkind], hat⟩

/-- The sketches of a cross rail have the unit that holds at its block. It is that of every sketch
with a point of the rail exactly when the same unit holds at the blocks of these. -/
theorem crossRail_unit_iff (h : ofSource file source unit = .ok analysis)
    {before after : List Block} {block : Block}
    (hblocks : Block.ofSource source = .ok (before ++ block :: after))
    (hword : block.keyword = .crossRails) (root : Path) :
    ∃ rails, analysis.crossRails[before.countP fun block => block.keyword = .crossRails]? =
        some (rails, unit.after before) ∧
      ∀ sketch ∈ rails.sketches analysis.sketches root (unit.after before),
        ∃ offset ∈ rails.offsets, ∃ rail ∈ rails.railNames,
          sketch.text = File.ofCells (rails.cells (unit.after before) offset
            (rails.points analysis.sketches rail offset)) ∧
          (∀ point ∈ rails.points analysis.sketches rail offset,
            ∃ profile ∈ analysis.sketches, rails.IsCopied rail offset profile point) ∧
          ((∀ profile ∈ analysis.sketches,
              rails.Contributes analysis.sketches rail offset profile →
                profile.unit = unit.after before) ↔
            ∀ front profile, analysis.IsSketchBehind (before ++ block :: after) front profile →
              rails.Contributes analysis.sketches rail offset profile →
                unit.after front = unit.after before) := by
  obtain ⟨blocks, later, hother, hreads, hfinish⟩ := ofSource_eq_ok h
  cases hother.symm.trans hblocks
  obtain ⟨here, rails, -, hrails, hat⟩ := hreads.exists_crossRails (isFinite_start unit) rfl hword
  refine ⟨rails, by rw [← hfinish]; exact hat, fun sketch hsketch => ?_⟩
  obtain ⟨offset, hoffset, rail, hrail, -, htext⟩ :=
    CrossRails.exists_cells_of_mem_sketches hrails hsketch
  refine ⟨offset, hoffset, rail, hrail, htext,
    fun point => CrossRails.exists_isCopied_of_mem_points, ?_⟩
  constructor
  · intro hprofiles front profile hbehind hcontributes
    obtain ⟨hmem, hunit⟩ := hbehind.unit_eq h hblocks
    exact hunit.symm.trans (hprofiles profile hmem hcontributes)
  · intro hfronts profile hmem hcontributes
    obtain ⟨front, hbehind⟩ := exists_isSketchBehind h hblocks hmem
    exact (hbehind.unit_eq h hblocks).2.trans (hfronts front profile hbehind hcontributes)

/-- A sketch in millimetres, and behind it a rail in this unit. -/
def laterUnit (unit : LengthUnit) : String :=
  "sketch, s, a\noffset_plane, z, 0\nline, cross_rails, r\n0, 0\n0, 5\nunits, m\nunits, " ++
    unit.word ++ "\ncross_rails, rails\nrail_names, r\nprofile_plane_normal, z\n" ++
    "rail_plane_normal, x\nrail_plane_offsets, 0\nrail_segment_type, line\n"

theorem exists_laterUnit (unit : LengthUnit) (h : unit ∈ [LengthUnit.mm, LengthUnit.cm]) :
    ∃ analysis, ofSource "t.txt" (laterUnit unit) .mm = .ok analysis ∧
      (∀ profile ∈ analysis.sketches, profile.unit = .mm) ∧
      (∃ rails, rails ∈ analysis.crossRails) ∧
      ∀ rails ∈ analysis.crossRails, rails.2 = unit ∧
        ∃ sketch, sketch ∈ rails.1.sketches analysis.sketches ⟨"out"⟩ rails.2 := by
  have hfacts : ∀ unit ∈ [LengthUnit.mm, LengthUnit.cm],
      ((ofSource "t.txt" (laterUnit unit) .mm).toOption.any fun analysis =>
        (analysis.sketches.all fun profile => profile.unit == .mm) &&
          (!analysis.crossRails.isEmpty && analysis.crossRails.all fun rails => rails.2 == unit &&
            !(rails.1.sketches analysis.sketches ⟨"out"⟩ rails.2).isEmpty)) = true := by
    decide +kernel
  obtain ⟨analysis, hread, hlater⟩ := exists_of_toOption_any (hfacts unit h)
  simp only [Bool.and_eq_true, List.all_eq_true, beq_iff_eq, Bool.not_eq_true',
    List.isEmpty_eq_false_iff_exists_mem] at hlater
  exact ⟨analysis, hread, hlater⟩

theorem exists_crossRail_unit_mm : ∃ analysis before block after rails sketch offset rail,
    ofSource "t.txt" (laterUnit .mm) .mm = .ok analysis ∧
      Block.ofSource (laterUnit .mm) = .ok (before ++ block :: after) ∧
      block.keyword = .crossRails ∧ (rails, LengthUnit.after .mm before) ∈ analysis.crossRails ∧
      sketch ∈ rails.sketches analysis.sketches ⟨"out"⟩ (LengthUnit.after .mm before) ∧
      sketch.text = File.ofCells (rails.cells (LengthUnit.after .mm before) offset
        (rails.points analysis.sketches rail offset)) ∧
      ∀ front profile, analysis.IsSketchBehind (before ++ block :: after) front profile →
        rails.Contributes analysis.sketches rail offset profile →
          LengthUnit.after .mm front = LengthUnit.after .mm before := by
  obtain ⟨analysis, hread, hunits, ⟨_, hsome⟩, hall⟩ := exists_laterUnit .mm (by decide)
  obtain ⟨before, block, after, _, hblocks, -, hword, -, -⟩ :=
    exists_block_of_mem_crossRails hread hsome
  obtain ⟨rails, hat, hsketches⟩ := crossRail_unit_iff hread hblocks hword ⟨"out"⟩
  have hrails := List.mem_of_getElem? hat
  obtain ⟨hunit, sketch, hsketch⟩ := hall _ hrails
  obtain ⟨offset, -, rail, -, htext, -, hiff⟩ := hsketches sketch hsketch
  refine ⟨analysis, before, block, after, rails, sketch, offset, rail, hread, hblocks, hword,
    hrails, hsketch, htext, hiff.mp fun profile hprofile _ => ?_⟩
  exact (hunits profile hprofile).trans hunit.symm

/-- Not every rail has the unit of the sketches that its points are copied from. -/
theorem exists_contributes_other_unit : ∃ analysis rails sketch offset rail profile,
    ofSource "t.txt" (laterUnit .cm) .mm = .ok analysis ∧ rails ∈ analysis.crossRails ∧
      sketch ∈ rails.1.sketches analysis.sketches ⟨"out"⟩ rails.2 ∧
      sketch.text = File.ofCells (rails.1.cells rails.2 offset
        (rails.1.points analysis.sketches rail offset)) ∧
      profile ∈ analysis.sketches ∧
      rails.1.Contributes analysis.sketches rail offset profile ∧ profile.unit ≠ rails.2 := by
  obtain ⟨analysis, hread, hunits, ⟨rails, hrails⟩, hall⟩ := exists_laterUnit .cm (by decide)
  obtain ⟨hunit, sketch, hsketch⟩ := hall rails hrails
  obtain ⟨_, _, _, _, -, -, -, -, hblock⟩ := exists_block_of_mem_crossRails hread hrails
  obtain ⟨offset, -, rail, -, hmany, htext⟩ :=
    CrossRails.exists_cells_of_mem_sketches hblock hsketch
  obtain ⟨point, hpoint⟩ := List.exists_mem_of_length_pos (Nat.lt_of_lt_of_le Nat.two_pos hmany)
  obtain ⟨profile, hprofile, hcopied⟩ := CrossRails.exists_isCopied_of_mem_points hpoint
  refine ⟨analysis, rails, sketch, offset, rail, profile, hread, hrails, hsketch, htext, hprofile,
    ⟨point, hpoint, hcopied⟩, ?_⟩
  rw [hunits profile hprofile, hunit]
  decide

end Analysis

end CadTimeline
