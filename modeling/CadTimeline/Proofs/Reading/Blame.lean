import CadTimeline.Failure
import CadTimeline.Proofs.Reading.Past
import CadTimeline.Proofs.Timeline.Layout

/-!
# Where failures are blamed

Every failure to read a timeline names a line of it that has content. When the timeline has
blocks, the line is one of the block that cannot be read, and the block is named with it.
-/

namespace CadTimeline

/-! ## Computations blamed on some lines -/

/-- If the computation succeeds, its result has the property; if it fails, that is blamed on
one of these lines. -/
def Ensures {α : Type} (numbers : List Nat) (p : α → Prop) : Except LineIssue α → Prop
  | .ok a => p a
  | .error found => found.line ∈ numbers

namespace Ensures

variable {α β : Type} {numbers : List Nat} {p : α → Prop} {q : β → Prop}

theorem mapError {number : Nat} (h : number ∈ numbers) {x : Except Issue α}
    (hx : ∀ a, x = .ok a → p a) : Ensures numbers p (x.mapError (LineIssue.mk number)) := by
  cases x with
  | ok a => exact hx a rfl
  | error issue => exact h

theorem bind {x : Except LineIssue α} {f : α → Except LineIssue β} (hx : Ensures numbers p x)
    (hf : ∀ a, p a → Ensures numbers q (f a)) : Ensures numbers q (x >>= f) := by
  cases x with
  | ok a => exact hf a hx
  | error found => exact hx

theorem foldlM {f : β → α → Except LineIssue β} {xs : List α}
    (hstep : ∀ x ∈ xs, ∀ b, q b → Ensures numbers q (f b x)) {b : β} (hb : q b) :
    Ensures numbers q (xs.foldlM f b) := by
  induction xs generalizing b with
  | nil => exact hb
  | cons x xs ih =>
      rw [List.forall_mem_cons] at hstep
      rw [List.foldlM_cons]
      exact (hstep.1 b hb).bind fun _ hnext => ih hstep.2 hnext

end Ensures

/-- A failure of the computation is blamed on one of these lines. -/
abbrev BlamedOn {α : Type} (numbers : List Nat) : Except LineIssue α → Prop :=
  Ensures numbers fun _ => True

theorem BlamedOn.mapError {α : Type} {numbers : List Nat} {number : Nat} (h : number ∈ numbers)
    (x : Except Issue α) : BlamedOn numbers (x.mapError (LineIssue.mk number)) :=
  Ensures.mapError h fun _ _ => trivial

/-! ## Blocks -/

namespace Block

def lines (block : Block) : List Line :=
  block.header :: block.body

def lineNumbers (block : Block) : List Nat :=
  block.lines.map Line.number

theorem number_mem_lineNumbers (block : Block) : block.number ∈ block.lineNumbers :=
  List.mem_cons_self

theorem number_mem_of_mem_body {block : Block} {line : Line} (h : line ∈ block.body) :
    line.number ∈ block.lineNumbers :=
  List.mem_map_of_mem (List.mem_cons_of_mem _ h)

end Block

namespace Body

variable {numbers : List Nat} {schema : Schema} {scope : Scope}

/-- The records were read from some of these lines. -/
def Progress.IsFrom (numbers : List Nat) (progress : Progress) : Prop :=
  ∀ owner ∈ progress.owners, owner.record.line ∈ numbers

theorem isFrom_start {header : Nat} (h : header ∈ numbers) :
    (start schema header).IsFrom numbers := by
  unfold start
  split
  · exact List.forall_mem_nil _
  · exact List.forall_mem_singleton.mpr h

theorem line_of_ofLine {kind : LineKind} {line : Line} {record : Record}
    (h : Record.ofLine kind scope line = .ok record) : record.line = line.number := by
  simp only [Record.ofLine, bind_eq_ok, check_eq_ok, pure_eq_ok] at h
  obtain ⟨tags, -, -, values, -, rfl⟩ := h
  rfl

theorem blamedOn_checkLast {progress : Progress} (h : progress.IsFrom numbers) :
    BlamedOn numbers progress.checkLast := by
  unfold Progress.checkLast
  split
  · trivial
  · rename_i owner earlier howners
    rw [Progress.IsFrom, howners, List.forall_mem_cons] at h
    unfold Owner.check
    split
    · trivial
    · split
      · trivial
      · exact h.1

theorem ensures_step {progress : Progress} {line : Line} (hline : line.number ∈ numbers)
    (h : progress.IsFrom numbers) :
    Ensures numbers (Progress.IsFrom numbers) (step schema scope progress line) := by
  unfold step
  split
  · refine (blamedOn_checkLast h).bind fun _ _ => ?_
    refine (BlamedOn.mapError hline _).bind fun _ _ => ?_
    refine (Ensures.mapError hline fun record hrecord => line_of_ofLine hrecord).bind
      fun record hrecord => ?_
    exact List.forall_mem_cons.mpr ⟨hrecord ▸ hline, h⟩
  · split
    · rename_i record rows earlier howners
      rw [Progress.IsFrom, howners, List.forall_mem_cons] at h
      exact (BlamedOn.mapError hline _).bind fun row _ => List.forall_mem_cons.mpr h
    · exact hline

/-- A body that cannot be read is blamed on the line at which reading stops, on the line whose
rows are missing, or on the header where a line is missing. -/
theorem blamedOn_read (block : Block) : BlamedOn block.lineNumbers (read schema scope block) := by
  have hloop : Ensures block.lineNumbers (Progress.IsFrom block.lineNumbers)
      (block.body.foldlM (step schema scope) (start schema block.number)) :=
    Ensures.foldlM
      (fun _ hline _ h => ensures_step (Block.number_mem_of_mem_body hline) h)
      (isFrom_start block.number_mem_lineNumbers)
  refine hloop.bind fun progress hprogress => ?_
  refine (blamedOn_checkLast hprogress).bind fun _ _ => ?_
  exact (BlamedOn.mapError block.number_mem_lineNumbers _).bind fun _ _ => trivial

end Body

theorem CrossRails.blamedOn_ofBlock (scope : Scope) (block : Block) :
    BlamedOn block.lineNumbers (ofBlock scope block) := by
  rw [ofBlock_eq]
  have hheader := block.number_mem_lineNumbers
  refine (BlamedOn.mapError hheader _).bind fun _ _ => ?_
  refine (Body.blamedOn_read block).bind fun _ _ => ?_
  exact BlamedOn.mapError hheader _

theorem Action.blamedOn_ofBlock (kind : ActionKind) (scope : Scope) (unit : LengthUnit)
    (block : Block) : BlamedOn block.lineNumbers (ofBlock kind scope unit block) := by
  rw [ofBlock_eq]
  refine (BlamedOn.mapError block.number_mem_lineNumbers _).bind fun _ _ => ?_
  exact (Body.blamedOn_read block).bind fun _ _ => trivial

namespace Reading

theorem blamedOn_checkNoBody (block : Block) :
    BlamedOn block.lineNumbers (checkNoBody block) := by
  unfold checkNoBody
  split
  · trivial
  · rename_i line rest hbody
    exact Block.number_mem_of_mem_body (hbody ▸ List.mem_cons_self)

theorem blamedOn_defineLine {numbers : List Nat} (table : ParameterTable) {line : Line}
    (hline : line.number ∈ numbers) : BlamedOn numbers (defineLine table line) := by
  unfold defineLine
  split
  · exact BlamedOn.mapError hline _
  · exact hline

theorem blamedOn_readParameters (table : ParameterTable) (block : Block) :
    BlamedOn block.lineNumbers (readParameters table block) := by
  unfold readParameters
  split
  · exact Ensures.foldlM (fun line hline table _ =>
      blamedOn_defineLine table (Block.number_mem_of_mem_body hline)) trivial
  · exact block.number_mem_lineNumbers

/-- A block that cannot be read is blamed on one of its lines. -/
theorem blamedOn_step (reading : Reading) (block : Block) :
    BlamedOn block.lineNumbers (reading.step block) := by
  have hheader := block.number_mem_lineNumbers
  unfold step
  cases block.keyword with
  | parameters => exact (blamedOn_readParameters _ block).bind fun _ _ => trivial
  | units =>
      refine (blamedOn_checkNoBody block).bind fun _ _ => ?_
      exact (BlamedOn.mapError hheader _).bind fun _ _ => trivial
  | echo =>
      refine (blamedOn_checkNoBody block).bind fun _ _ => ?_
      exact (BlamedOn.mapError hheader _).bind fun _ _ => trivial
  | crossRails => exact (CrossRails.blamedOn_ofBlock _ block).bind fun _ _ => trivial
  | action kind => exact (Action.blamedOn_ofBlock kind _ _ block).bind fun _ _ => trivial

/-- Where blocks cannot be read, one of them is the first that fails. -/
theorem exists_block_of_foldlM_error {file : String} {reading : Reading} {blocks : List Block}
    {complaint : Complaint}
    (h : blocks.foldlM (Analysis.readBlock file) reading = .error complaint) :
    ∃ before block after here found, blocks = before ++ block :: after ∧
      Reads file reading before here ∧ here.step block = .error found ∧
      found.inFile file block.label = complaint := by
  induction blocks generalizing reading with
  | nil => contradiction
  | cons block blocks ih =>
      rw [List.foldlM_cons] at h
      cases hstep : reading.step block with
      | error found =>
          rw [Analysis.readBlock, hstep] at h
          cases h
          exact ⟨[], block, blocks, reading, found, rfl, rfl, hstep, rfl⟩
      | ok next =>
          rw [Analysis.readBlock, hstep] at h
          obtain ⟨before, other, after, here, found, rfl, hbefore, hrest⟩ := ih h
          exact ⟨block :: before, other, after, here, found, rfl,
            Reads.cons.mpr ⟨next, hstep, hbefore⟩, hrest⟩

end Reading

/-! ## Lines of a source -/

namespace Line

/-- The number of a line of a source that is neither blank nor a comment. -/
def IsContentNumber (source : String) (number : Nat) : Prop :=
  ∃ index raw, number = index + 1 ∧ (Text.lines source.toList)[index]? = some raw ∧
    ¬ Field.IsTrivia (Field.dropMark raw)

theorem isContentNumber_of_read {source : String} {index : Nat} {raw : List Char} {number : Nat}
    {item : Block.Item} (hraw : (Text.lines source.toList)[index]? = some raw)
    (hread : read (index + 1) raw = some item) (hnumber : number = index + 1) :
    IsContentNumber source number := by
  refine ⟨index, raw, hnumber, hraw, fun htrivia => ?_⟩
  rw [read, Field.splitLine_eq_nil_iff.mpr htrivia] at hread
  contradiction

theorem isContentNumber_of_mem {source : String} {line : Line}
    (h : .ok line ∈ ofSource source.toList) : IsContentNumber source line.number := by
  obtain ⟨index, raw, hraw, hread⟩ := mem_ofSource_iff.mp h
  exact isContentNumber_of_read hraw hread (read_eq_some_ok_iff.mp hread).1

theorem isContentNumber_of_fault_mem {source : String} {fault : Fault}
    (h : .error fault ∈ ofSource source.toList) : IsContentNumber source fault.number := by
  obtain ⟨index, raw, hraw, hread⟩ := mem_ofSource_iff.mp h
  exact isContentNumber_of_read hraw hread (read_eq_some_error_iff.mp hread).1

end Line

namespace Block

variable {source : String}

/-- A source without blocks is blamed on the line that is in none or cannot be split. -/
theorem isContentNumber_of_ofSource_error {found : LineIssue}
    (h : ofSource source = .error found) : Line.IsContentNumber source found.line := by
  have hentry : ∃ entry ∈ entries (Line.ofSource source.toList), entry.toBlock = .error found := by
    by_contra hnone
    exact mapM_ne_error (fun entry hentry hfound => hnone ⟨entry, hentry, hfound⟩) h
  obtain ⟨entry, hentry, hfound⟩ := hentry
  have hitems : ∀ item ∈ entry.items, item ∈ Line.ofSource source.toList := by
    intro item hitem
    rw [← flatMap_items_entries (Line.ofSource source.toList)]
    exact List.mem_flatMap.mpr ⟨entry, hentry, hitem⟩
  cases entry with
  | block block => contradiction
  | stray line =>
      cases hfound
      exact Line.isContentNumber_of_mem (hitems _ List.mem_cons_self)
  | broken fault =>
      cases hfound
      exact Line.isContentNumber_of_fault_mem (hitems _ List.mem_cons_self)

theorem isContentNumber_of_mem_lineNumbers {blocks : List Block}
    (h : ofSource source = .ok blocks) {block : Block} (hblock : block ∈ blocks) {number : Nat}
    (hnumber : number ∈ block.lineNumbers) : Line.IsContentNumber source number := by
  obtain ⟨line, hline, rfl⟩ := List.mem_map.mp hnumber
  exact Line.isContentNumber_of_mem (mem_ofSource h hblock (List.mem_cons.mp hline))

theorem pairwise_lineNumbers {blocks : List Block} (h : ofSource source = .ok blocks) :
    (blocks.flatMap lineNumbers).Pairwise (· < ·) := by
  have hlines : Line.ofSource source.toList = (blocks.flatMap lines).map .ok := by
    rw [← flatMap_items_entries (Line.ofSource source.toList), ofSource_eq_ok_iff.mp h,
      List.flatMap_map, List.map_flatMap]
    rfl
  have hincreasing := (Line.areContent_of_ofSource hlines).increasing
  rwa [← List.pairwise_map, List.map_flatMap] at hincreasing

/-- No two blocks of a source have a line in common. -/
theorem notMem_lineNumbers {before after : List Block} {block : Block}
    (h : ofSource source = .ok (before ++ block :: after)) {number : Nat}
    (hnumber : number ∈ block.lineNumbers) :
    ∀ other ∈ before ++ after, number ∉ other.lineNumbers := by
  have hpairwise := pairwise_lineNumbers h
  rw [List.flatMap_append, List.flatMap_cons, List.pairwise_append, List.pairwise_append]
    at hpairwise
  obtain ⟨-, ⟨-, -, hafter⟩, hbefore⟩ := hpairwise
  intro other hother hmem
  rcases List.mem_append.mp hother with hother | hother
  · exact lt_irrefl number (hbefore number (List.mem_flatMap.mpr ⟨other, hother, hmem⟩) number
      (List.mem_append_left _ hnumber))
  · exact lt_irrefl number
      (hafter number hnumber number (List.mem_flatMap.mpr ⟨other, hother, hmem⟩))

end Block

/-! ## Timelines -/

namespace Analysis

variable {file source : String} {unit : LengthUnit} {complaint : Complaint}

/-- When the timeline has blocks, one of them is blamed. -/
theorem exists_block_of_ofSource_error (h : ofSource file source unit = .error complaint)
    {blocks : List Block} (hblocks : Block.ofSource source = .ok blocks) :
    ∃ before block after, blocks = before ++ block :: after ∧
      complaint.location.file = file ∧ complaint.location.block = block.label ∧
      complaint.location.line ∈ block.lineNumbers := by
  rcases ofSource_eq_error.mp h with ⟨found, hfound, -⟩ | ⟨others, hothers, hread⟩
  · rw [hblocks] at hfound
    contradiction
  · cases hblocks.symm.trans hothers
    obtain ⟨before, block, after, here, found, rfl, -, hstep, rfl⟩ :=
      Reading.exists_block_of_foldlM_error hread
    have hblame := Reading.blamedOn_step here block
    rw [hstep] at hblame
    exact ⟨before, block, after, rfl, rfl, rfl, hblame⟩

theorem isContentNumber_of_ofSource_error (h : ofSource file source unit = .error complaint) :
    complaint.location.file = file ∧ Line.IsContentNumber source complaint.location.line := by
  cases hblocks : Block.ofSource source with
  | error found =>
      rcases ofSource_eq_error.mp h with ⟨other, hother, rfl⟩ | ⟨blocks, hother, -⟩
      · cases hblocks.symm.trans hother
        exact ⟨rfl, Block.isContentNumber_of_ofSource_error hblocks⟩
      · rw [hblocks] at hother
        contradiction
  | ok blocks =>
      obtain ⟨before, block, after, rfl, hfile, -, hline⟩ :=
        exists_block_of_ofSource_error h hblocks
      exact ⟨hfile, Block.isContentNumber_of_mem_lineNumbers hblocks (by simp) hline⟩

/-- A timeline that cannot be read fails with a complaint, which is neither a collision of
paths nor a fault of a store. It is blamed on the file and on a line that is neither blank
nor a comment. When the timeline has blocks, that is a line of exactly one of them, the label
of which the complaint gives. -/
theorem blamed_of_ofSource_error (h : ofSource file source unit = .error complaint) :
    (Failure.complaint complaint).location? = some complaint.location ∧
    (Failure.complaint complaint).kind ≠ "PathCollisionError" ∧
    (Failure.complaint complaint).kind ≠ "IOError" ∧
    complaint.location.file = file ∧
    Line.IsContentNumber source complaint.location.line ∧
    ∀ blocks, Block.ofSource source = .ok blocks →
      ∃ before block after, blocks = before ++ block :: after ∧
        complaint.location.line ∈ block.lineNumbers ∧
        complaint.location.block = block.label ∧
        ∀ other ∈ before ++ after, complaint.location.line ∉ other.lineNumbers := by
  obtain ⟨hfile, hline⟩ := isContentNumber_of_ofSource_error h
  have hkind : complaint.kind ≠ "PathCollisionError" ∧ complaint.kind ≠ "IOError" := by
    unfold Complaint.kind Issue.kind
    split <;> decide
  refine ⟨rfl, hkind.1, hkind.2, hfile, hline, fun blocks hblocks => ?_⟩
  obtain ⟨before, block, after, rfl, -, hlabel, hmem⟩ := exists_block_of_ofSource_error h hblocks
  exact ⟨before, block, after, rfl, hmem, hlabel, Block.notMem_lineNumbers hblocks hmem⟩

/-- A sketch with too few rows for its second segment, behind a comment. -/
def shortSource : String :=
  "# rows\n\nsketch, s, a\noffset_plane, z, 0\nline\n0, 0\n\nplane, p, b\nplane, z, 1\n"

theorem blamed_shortSource : ∃ complaint, ofSource "t.txt" shortSource .mm = .error complaint ∧
    complaint.location = ⟨"t.txt", 5, "sketch a"⟩ ∧ Line.IsContentNumber shortSource 5 := by
  have hlocation : ((ofSource "t.txt" shortSource .mm).map fun _ => ()).mapError
      Complaint.location = .error ⟨"t.txt", 5, "sketch a"⟩ := by
    decide +kernel
  cases hfailed : ofSource "t.txt" shortSource .mm with
  | ok analysis =>
      rw [hfailed] at hlocation
      contradiction
  | error complaint =>
      rw [hfailed] at hlocation
      have hplace := Except.error.inj hlocation
      obtain ⟨-, -, -, -, hline, -⟩ := blamed_of_ofSource_error hfailed
      rw [hplace] at hline
      exact ⟨complaint, rfl, hplace, hline⟩

end Analysis

end CadTimeline
