import CadTimeline.Proofs.Compile.Session
import CadTimeline.Proofs.Reading.Renumbering
import CadTimeline.Proofs.Timeline.Layout

/-!
# Layout and outputs

The files of a timeline do not depend on the numbers of its lines: paths and texts of the plan
are made of the rest. So a source that is laid out anew compiles as before, from whatever
session, and only the line numbers in the report are others.
-/

namespace CadTimeline

/-! ## The plan -/

section

variable (f : Nat → Nat)

def Location.renumber (location : Location) : Location :=
  { location with line := f location.line }

def Output.renumber (output : Output) : Output :=
  { output with line := f output.line, producer := output.producer.renumber f }

namespace Action

variable (action : Action)

theorem plane?_renumber : (action.renumber f).plane? = action.plane? := by
  unfold plane? renumber
  dsimp only
  rw [List.find?_map, Option.map_map]
  rfl

theorem segments_renumber :
    (action.renumber f).segments = action.segments.map (Record.renumber f) := by
  unfold segments renumber
  rw [List.filter_map]
  rfl

theorem file_renumber : (action.renumber f).file = action.file := by
  have hrecords : File.records (action.records.map (Record.renumber f)) =
      File.records action.records := by
    rw [File.records, File.records, List.map_map]
    rfl
  unfold file fileBy renumber
  rw [hrecords]

theorem coRails_renumber (root : Path) :
    (action.renumber f).coRails root = action.coRails root := by
  unfold coRails
  rw [plane?_renumber, segments_renumber]
  cases action.plane? with
  | none => rfl
  | some plane =>
      dsimp only
      rw [List.filterMap_map]
      rfl

end Action

namespace CrossRails

variable (rails : CrossRails)

theorem profilePoints_renumber (rail : String) (offset : Float) (profile : Action) :
    (rails.renumber f).profilePoints rail offset (profile.renumber f) =
      rails.profilePoints rail offset profile := by
  unfold profilePoints
  rw [Action.plane?_renumber, Action.segments_renumber]
  cases profile.plane? with
  | none => rfl
  | some plane =>
      dsimp only
      rw [List.filter_map, List.flatMap_map]
      rfl

theorem points_renumber (profiles : List Action) (rail : String) (offset : Float) :
    (rails.renumber f).points (profiles.map (Action.renumber f)) rail offset =
      rails.points profiles rail offset := by
  unfold points
  rw [List.flatMap_map]
  simp only [profilePoints_renumber]

theorem sketches_renumber (profiles : List Action) (root : Path) (unit : LengthUnit) :
    (rails.renumber f).sketches (profiles.map (Action.renumber f)) root unit =
      rails.sketches profiles root unit := by
  unfold sketches sketch? pointRow
  simp only [points_renumber]
  rfl

end CrossRails

namespace Analysis

variable (analysis : Analysis) (root : Path)

theorem sketches_renumber :
    (analysis.renumber f).sketches = analysis.sketches.map (Action.renumber f) := by
  unfold sketches renumber
  rw [List.filter_map]
  rfl

theorem fileName_renumber (action : Action) :
    (analysis.renumber f).fileName root (action.renumber f) = analysis.fileName root action := by
  have hsize : (analysis.renumber f).familySize root (action.renumber f) =
      analysis.familySize root action := by
    unfold familySize
    rw [sketches_renumber, List.filter_map, List.length_map]
    rfl
  unfold fileName
  rw [Action.plane?_renumber, hsize]
  rfl

theorem actionOutputs_renumber (action : Action) :
    (analysis.renumber f).actionOutputs root (action.renumber f) =
      (analysis.actionOutputs root action).map (Output.renumber f) := by
  unfold actionOutputs actionOutput
  rw [fileName_renumber, Action.file_renumber, Action.coRails_renumber, List.map_cons,
    List.map_map]
  rfl

theorem crossRailOutputs_renumber (rails : CrossRails × LengthUnit) :
    (analysis.renumber f).crossRailOutputs root (rails.1.renumber f, rails.2) =
      (analysis.crossRailOutputs root rails).map (Output.renumber f) := by
  unfold crossRailOutputs
  rw [sketches_renumber, CrossRails.sketches_renumber, List.map_map]
  rfl

/-- The same files with the same texts, from the lines with the new numbers. -/
theorem plan_renumber :
    (analysis.renumber f).plan root = (analysis.plan root).map (Output.renumber f) := by
  unfold plan
  rw [List.map_append, List.map_flatMap, List.map_flatMap]
  unfold renumber
  rw [List.flatMap_map, List.flatMap_map]
  congr 1
  · exact List.flatMap_congr fun action _ => analysis.actionOutputs_renumber f root action
  · exact List.flatMap_congr fun rails _ => analysis.crossRailOutputs_renumber f root rails

end Analysis

end

/-! ## Writing -/

/-- The reserved paths, each with the file and the block that took it. -/
def Reservations.holders (reserved : Reservations) : List (Path × String × String) :=
  reserved.entries.map fun (path, location) => (path, location.file, location.block)

theorem Reservations.isSome_holder? {reserved other : Reservations}
    (h : other.holders = reserved.holders) (path : Path) :
    (other.holder? path).isSome = (reserved.holder? path).isSome := by
  have hfind : ∀ r : Reservations, (r.holder? path).isSome =
      (r.holders.find? fun holder => holder.1.same path).isSome := by
    intro r
    rw [holder?, holders, List.find?_map, Option.isSome_map, Option.isSome_map]
    rfl
  rw [hfind, hfind, h]

theorem Reservations.holders_add {reserved other : Reservations}
    (h : other.holders = reserved.holders) (f : Nat → Nat) (path : Path) (location : Location) :
    (other.add path (location.renumber f)).holders = (reserved.add path location).holders := by
  unfold holders at h
  simp [holders, add, Location.renumber, h]

def Written.renumber (f : Nat → Nat) (file : Written) : Written :=
  { file with line := f file.line }

def FileReport.renumber (f : Nat → Nat) (report : FileReport) : FileReport where
  file := report.file
  written := report.written.map (Written.renumber f)
  echoes := report.echoes
  parameters := report.parameters.renumber f

namespace Session

/-- The same progress with the other numbers. Paths that earlier calls have reserved may have
any. -/
structure SameProgress (f : Nat → Nat) (progress other : Progress) : Prop where
  holders : other.reserved.holders = progress.reserved.holders
  written : other.written = progress.written.map (Written.renumber f)

/-- Writing came to the same end, and left the same disk. -/
structure SameResult (f : Nat → Nat) (result other : Result) : Prop where
  outcome : Alike (fun failure other => other.kind = failure.kind) Eq result.1.1 other.1.1
  progress : SameProgress f result.1.2 other.1.2
  disk : other.2 = result.2

variable {f : Nat → Nat} {progress other : Progress}

theorem SameResult.report {result other : Result} (h : SameResult f result other) :
    Alike (fun failure other => other.kind = failure.kind)
      (fun files others => others = files.map (Written.renumber f)) result.report other.report :=
  h.outcome.map fun _ _ _ => h.progress.written

theorem SameProgress.output (h : SameProgress f progress other) (output : Output)
    (disk : Disk) :
    SameResult f (runWriting (writeOutput Disk.host.put output) progress disk)
      (runWriting (writeOutput Disk.host.put (output.renumber f)) other disk) := by
  have hpath : (output.renumber f).path = output.path := rfl
  have htext : (output.renumber f).text = output.text := rfl
  have hproducer : (output.renumber f).producer = output.producer.renumber f := rfl
  have hholder := Reservations.isSome_holder? h.holders output.path
  rw [runWriting_writeOutput, runWriting_writeOutput, hpath, htext, hproducer]
  cases hfirst : progress.reserved.holder? output.path with
  | some first =>
      rw [hfirst, Option.isSome_some] at hholder
      obtain ⟨holder, hother⟩ := Option.isSome_iff_exists.mp hholder
      rw [hother]
      exact ⟨.error rfl, h, rfl⟩
  | none =>
      rw [hfirst, Option.isSome_none] at hholder
      rw [Option.isSome_eq_false_iff.mp hholder |> Option.isNone_iff_eq_none.mp]
      have hadd := Reservations.holders_add h.holders f output.path output.producer
      dsimp only
      generalize Disk.host.put output.path output.text disk = result
      obtain ⟨⟨place, fault⟩ | status, later⟩ := result
      · exact ⟨.error rfl, ⟨hadd, h.written⟩, rfl⟩
      · refine ⟨.ok rfl, ⟨hadd, ?_⟩, rfl⟩
        simp [h.written, Written.renumber, Output.renumber]

/-- Outputs with other numbers are written as before. -/
theorem SameProgress.outputs (h : SameProgress f progress other) (outputs : List Output)
    (disk : Disk) :
    SameResult f (runWriting (outputs.forM (writeOutput Disk.host.put)) progress disk)
      (runWriting ((outputs.map (Output.renumber f)).forM (writeOutput Disk.host.put)) other
        disk) := by
  induction outputs generalizing progress other disk with
  | nil => exact ⟨.ok rfl, h, rfl⟩
  | cons output outputs ih =>
      have hcons : ∀ (output : Output) outputs,
          (output :: outputs).forM (writeOutput Disk.host.put) =
            (writeOutput Disk.host.put output >>= fun _ =>
              outputs.forM (writeOutput Disk.host.put)) := fun _ _ => rfl
      have hfirst := h.output output disk
      rw [List.map_cons, hcons, hcons, runWriting_bind, runWriting_bind]
      generalize runWriting (writeOutput Disk.host.put output) progress disk = result
        at hfirst
      generalize runWriting (writeOutput Disk.host.put (output.renumber f)) other disk =
        otherResult at hfirst
      obtain ⟨⟨outcome, next⟩, later⟩ := result
      obtain ⟨⟨otherOutcome, otherNext⟩, otherLater⟩ := otherResult
      obtain ⟨houtcome, hnext, hdisk⟩ := hfirst
      dsimp only at houtcome hnext hdisk
      subst hdisk
      cases houtcome with
      | ok _ => exact ih hnext otherLater
      | error hkind => exact ⟨.error hkind, hnext, rfl⟩

theorem compile_renumbered {file source other : String} {unit : LengthUnit}
    (h : Alike (Complaint.Follows f) (fun analysis other => other = analysis.renumber f)
      (Analysis.ofSource file source unit) (Analysis.ofSource file other unit))
    (session : Session) (root : Path) :
    Alike (fun failure other => other.kind = failure.kind)
        (fun report other => other = report.renumber f)
        (session.compile root unit ⟨file, source⟩).1 (session.compile root unit ⟨file, other⟩).1 ∧
      (session.compile root unit ⟨file, other⟩).2.disk =
        (session.compile root unit ⟨file, source⟩).2.disk ∧
      (session.compile root unit ⟨file, other⟩).2.reserved.holders =
        (session.compile root unit ⟨file, source⟩).2.reserved.holders := by
  generalize hhere : Analysis.ofSource file source unit = first at h
  generalize hthere : Analysis.ofSource file other unit = second at h
  cases h with
  | error hcomplaint =>
      have hfirst : session.compile root unit ⟨file, source⟩ = _ := compile_of_complaint hhere
      have hsecond : session.compile root unit ⟨file, other⟩ = _ := compile_of_complaint hthere
      rw [hfirst, hsecond]
      exact ⟨.error hcomplaint.issue.kind_eq, rfl, rfl⟩
  | @ok analysis _ heq =>
      subst heq
      have hsame : SameProgress f ⟨session.reserved, []⟩ ⟨session.reserved, []⟩ := ⟨rfl, rfl⟩
      have hresult := hsame.outputs (analysis.plan root) session.disk
      have hfirst : session.compile root unit ⟨file, source⟩ = _ := compile_of_analysis hhere
      have hsecond : session.compile root unit ⟨file, other⟩ = _ := compile_of_analysis hthere
      rw [hfirst, hsecond, analysis.plan_renumber f root]
      dsimp only
      refine ⟨?_, hresult.disk, hresult.progress.holders⟩
      refine hresult.report.map ?_
      rintro files _ rfl
      rfl

/-- A source that is laid out anew has the same analysis and compiles as before, in any session
and with any file store, but for the numbers of its lines: it succeeds or fails in the same
way, with the same paths and echoes and the same parameters, and leaves the same files. -/
theorem compile_layout {source other : String} (hsplits : Line.Splits source)
    (hlayout : Line.Layout source.toList other.toList) :
    ∃ f : Nat → Nat, StrictMono f ∧ ∀ (file : String) (unit : LengthUnit),
      Alike (fun complaint other => other.kind = complaint.kind)
        (fun analysis other => other = analysis.renumber f)
        (Analysis.ofSource file source unit) (Analysis.ofSource file other unit) ∧
      ∀ (session : Session) (root : Path),
        let here := session.compile root unit ⟨file, source⟩
        let there := session.compile root unit ⟨file, other⟩
        Alike (fun failure other => other.kind = failure.kind)
          (fun report other => other = report.renumber f) here.1 there.1 ∧
        there.2.disk = here.2.disk ∧ there.2.reserved.holders = here.2.reserved.holders := by
  obtain ⟨f, hf, hlines⟩ := hlayout.renumbered hsplits
  refine ⟨f, hf, fun file unit => ?_⟩
  have hread := Analysis.alike_ofSource f file unit hlines
  exact ⟨hread.imp (fun _ _ h => h.issue.kind_eq) fun _ _ h => h, compile_renumbered hread⟩

/-- A message with a `#` in quotes. -/
def messageLine : String :=
  "echo, \"a # b\""

def sketchLines : String :=
  "parameters\nw, 3 / 4\nsketch, s, \"a\"\noffset_plane, z, $w\nline\n0, 0\n1, $w\n"

def plainSource : String :=
  messageLine ++ "\n" ++ sketchLines

/-- The same with a comment before the first line and one behind it, and with a carriage
return. -/
def commentedSource : String :=
  "  # sketch\n" ++ messageLine ++ " # not, \"quoted\r\n" ++ sketchLines

theorem layout_commentedSource : Line.Layout plainSource.toList commentedSource.toList := by
  have hblank : Text.isBlank ' ' = true := by decide
  have hvacant : Line.IsVacant "  # sketch".toList :=
    ⟨by decide, [' ', ' '], "# sketch".toList, by decide, by simp [hblank],
      .inr ⟨" sketch".toList, by decide⟩⟩
  have hstart : Line.IsStart [] := .inl rfl
  have hend : Line.IsEnd ('\n' :: sketchLines.toList) := .inr (.inl ⟨_, rfl⟩)
  have hline := Line.Relaid.line hstart hvacant plainSource.toList
  have hcomment := Line.Relaid.comment ("  # sketch\n".toList ++ messageLine.toList)
    " not, \"quoted".toList (by decide) hend
  have hreturn := Line.Relaid.carriageReturn
    ("  # sketch\n".toList ++ messageLine.toList ++ " # not, \"quoted".toList) sketchLines.toList
  simp only [plainSource, commentedSource, String.toList_append, String.reduceToList,
    List.append_assoc, List.cons_append, List.nil_append] at hline hcomment hreturn ⊢
  exact .tail (.tail (.single hline) hcomment) hreturn

theorem exists_compile_commentedSource :
    Line.Splits plainSource ∧ Line.Layout plainSource.toList commentedSource.toList ∧
      let here := (start (fun _ => none) []).compile ⟨"out"⟩ .mm ⟨"t.txt", plainSource⟩
      let there := (start (fun _ => none) []).compile ⟨"out"⟩ .mm ⟨"t.txt", commentedSource⟩
      here.1.isOk = true ∧ there.1.isOk = true ∧ there.2.disk = here.2.disk := by
  have hsplits : Line.Splits plainSource := by decide +kernel
  obtain ⟨f, -, h⟩ := compile_layout hsplits layout_commentedSource
  obtain ⟨hresult, hdisk, -⟩ := (h "t.txt" .mm).2 (start (fun _ => none) []) ⟨"out"⟩
  refine ⟨hsplits, layout_commentedSource, ?_⟩
  intro here there
  have hok : here.1.isOk = true := by decide +kernel
  exact ⟨hok, hresult.isOk_eq.symm.trans hok, hdisk⟩

end Session

end CadTimeline
