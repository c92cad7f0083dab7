import CadTimeline.Proofs.Compile.Session
import CadTimeline.Proofs.Except

/-!
# Runs of a compiler

A compiler reads several timelines one after the other, up to the first that fails. Where
no call to the disk fails, a run succeeds exactly when all timelines can be read and all
their outputs have paths of their own. What it reports of a timeline and the files that it
leaves then depend on the timelines and on the files at the start alone: not on the order of
the timelines, and a second run finds every output in its place.
-/

namespace CadTimeline

/-! ## Files with outputs in them -/

/-- The contents of files by the components of their paths. -/
abbrev Files := List Path.Component → Option ByteArray

/-- No two of the outputs have one path. -/
def Output.Apart (outputs : List Output) : Prop :=
  outputs.Pairwise fun a b => a.path.components ≠ b.path.components

/-- What writing an output to these files changes. -/
def Output.status (output : Output) (files : Files) : WriteStatus :=
  match files output.path.components with
  | none => .created
  | some content => if content == output.text.toUTF8 then .unchanged else .updated

def Output.report (files : Files) (output : Output) : Written :=
  ⟨output.path, output.kind, output.line, output.status files⟩

namespace Files

variable {files : Files} {outputs : List Output} {output : Output}

/-- The files after the outputs were given their texts. -/
def fill (files : Files) (outputs : List Output) : Files :=
  outputs.foldl
    (fun files output => Function.update files output.path.components (some output.text.toUTF8))
    files

theorem fill_cons (files : Files) (output : Output) (outputs : List Output) :
    files.fill (output :: outputs) =
      fill (Function.update files output.path.components (some output.text.toUTF8)) outputs :=
  rfl

theorem fill_append (files : Files) (outputs others : List Output) :
    files.fill (outputs ++ others) = (files.fill outputs).fill others :=
  List.foldl_append

theorem fill_of_ne {components : List Path.Component}
    (h : ∀ output ∈ outputs, output.path.components ≠ components) :
    files.fill outputs components = files components := by
  induction outputs generalizing files with
  | nil => rfl
  | cons output outputs ih =>
      rw [List.forall_mem_cons] at h
      rw [fill_cons, ih h.2]
      apply Function.update_of_ne
      exact Ne.symm h.1

theorem fill_of_mem (hapart : Output.Apart outputs) (hmem : output ∈ outputs) :
    files.fill outputs output.path.components = some output.text.toUTF8 := by
  induction outputs generalizing files with
  | nil => exact absurd hmem List.not_mem_nil
  | cons first outputs ih =>
      have hrest := List.pairwise_cons.mp hapart
      rw [fill_cons]
      rcases List.mem_cons.mp hmem with rfl | hmem
      · have hne : ∀ other ∈ outputs, other.path.components ≠ output.path.components :=
          fun other hother => Ne.symm (hrest.1 other hother)
        rw [fill_of_ne hne]
        exact Function.update_self ..
      · exact ih hrest.2 hmem

/-- The order of outputs with paths of their own makes no difference. -/
theorem fill_perm {others : List Output} (hperm : outputs.Perm others)
    (hapart : Output.Apart outputs) (files : Files) : files.fill outputs = files.fill others := by
  have hothers : Output.Apart others := hperm.pairwise hapart fun h => Ne.symm h
  funext components
  by_cases h : ∃ output ∈ outputs, output.path.components = components
  · obtain ⟨output, hmem, rfl⟩ := h
    rw [fill_of_mem hapart hmem, fill_of_mem hothers (hperm.mem_iff.mp hmem)]
  · have hne : ∀ output ∈ outputs, output.path.components ≠ components :=
      fun output hmem heq => h ⟨output, hmem, heq⟩
    rw [fill_of_ne hne, fill_of_ne fun output hmem => hne output (hperm.mem_iff.mpr hmem)]

/-- Outputs that are in their places already change nothing. -/
theorem fill_fill (hapart : Output.Apart outputs) (files : Files) :
    (files.fill outputs).fill outputs = files.fill outputs := by
  funext components
  by_cases h : ∃ output ∈ outputs, output.path.components = components
  · obtain ⟨output, hmem, rfl⟩ := h
    rw [fill_of_mem hapart hmem, fill_of_mem hapart hmem]
  · apply fill_of_ne
    exact fun output hmem heq => h ⟨output, hmem, heq⟩

theorem status_fill (hapart : Output.Apart outputs) (hmem : output ∈ outputs) (files : Files) :
    output.status (files.fill outputs) = .unchanged := by
  rw [Output.status, fill_of_mem hapart hmem]
  exact if_pos (Disk.contents_beq_iff.mpr rfl)

theorem report_fill_of_ne
    (h : ∀ other ∈ outputs, other.path.components ≠ output.path.components) :
    output.report (files.fill outputs) = output.report files := by
  rw [Output.report, Output.report, Output.status, Output.status, fill_of_ne h]

end Files

/-- On a disk without faults the status of an output is that of its file. -/
theorem Session.Reports.eq {disk : Disk} {output : Output} {file : Written}
    (h : Session.Reports disk output file) (hsound : disk.IsSound) :
    file = output.report disk.files := by
  obtain ⟨path, kind, line, status⟩ := file
  obtain ⟨rfl, rfl, rfl, hstatus⟩ := h
  have heq : status = output.status disk.files := by
    unfold Output.status
    cases status with
    | created =>
        have hnone := hstatus.resolve_right fun hn => hn hsound
        rw [hnone]
    | updated =>
        obtain ⟨old, hold, hne⟩ := hstatus
        rw [hold]
        exact (if_neg (mt Disk.contents_beq_iff.mp hne)).symm
    | unchanged =>
        have hold : disk.files output.path.components = some output.text.toUTF8 := hstatus
        rw [hold]
        exact (if_pos (Disk.contents_beq_iff.mpr rfl)).symm
  rw [Output.report, heq]

/-! ## One timeline -/

namespace Call

/-- What the timeline says. -/
def read (call : Call) (unit : LengthUnit) : Except Complaint Analysis :=
  Analysis.ofSource call.file call.source unit

/-- The files that the timeline becomes, none if it cannot be read. -/
def outputs (root : Path) (unit : LengthUnit) (call : Call) : List Output :=
  match call.read unit with
  | .ok analysis => analysis.plan root
  | .error _ => []

/-- The report of the timeline in front of these files. -/
def report (root : Path) (unit : LengthUnit) (files : Files) (call : Call) : FileReport where
  file := call.file
  written := (call.outputs root unit).map (Output.report files)
  echoes := (call.read unit).toOption.elim [] Analysis.echoes
  parameters := (call.read unit).toOption.elim .empty Analysis.parameters

/-- The outputs of some timelines, in order. -/
def allOutputs (root : Path) (unit : LengthUnit) (calls : List Call) : List Output :=
  calls.flatMap (outputs root unit)

theorem allOutputs_cons (root : Path) (unit : LengthUnit) (call : Call) (calls : List Call) :
    allOutputs root unit (call :: calls) =
      call.outputs root unit ++ allOutputs root unit calls :=
  List.flatMap_cons

end Call

namespace Session

variable {session later : Session} {outputs : List Output}

/-- The outputs have paths of their own, and none that is taken. -/
structure Fits (session : Session) (outputs : List Output) : Prop where
  apart : Output.Apart outputs
  free : ∀ entry ∈ session.reserved.entries, ∀ output ∈ outputs,
    entry.1.components ≠ output.path.components

theorem Fits.left {others : List Output} (h : session.Fits (outputs ++ others)) :
    session.Fits outputs where
  apart := h.apart.sublist (List.sublist_append_left _ _)
  free := fun entry hentry output hmem => h.free entry hentry output (List.mem_append_left _ hmem)

theorem fits_start_iff {files : Files} {faults : List (Option Disk.Interruption)} :
    (start files faults).Fits outputs ↔ Output.Apart outputs := by
  constructor
  · exact Fits.apart
  · intro hapart
    exact ⟨hapart, List.forall_mem_nil _⟩

theorem isSound_start (files : Files) : (start files []).disk.IsSound :=
  fun _ => List.not_mem_nil

theorem Writes.fits {files : List Written} (h : Writes session outputs files later)
    (htidy : later.Tidy) : session.Fits outputs := by
  have hdistinct := htidy.distinct
  rw [Reservations.Distinct, h.reserved, List.pairwise_append] at hdistinct
  obtain ⟨-, hapart, hfree⟩ := hdistinct
  rw [List.pairwise_map] at hapart
  refine ⟨hapart, fun entry hentry output hmem => ?_⟩
  exact hfree entry hentry _ (List.mem_map_of_mem hmem)

/-- Outputs that fit are all written if no call fails. -/
theorem Ends.writes {outcome : Except Failure (List Written)}
    (h : Ends session outputs outcome later) (hsound : session.disk.IsSound)
    (hfits : session.Fits outputs) :
    ∃ files, outcome = .ok files ∧ Writes session outputs files later := by
  cases h with
  | complete h => exact ⟨_, rfl, h⟩
  | collision hplan _ hsame hkept =>
      exfalso
      subst hplan
      rcases hkept with ⟨hmem, -⟩ | ⟨earlier, hdone, rfl, -⟩
      · apply hfits.free _ hmem _ _ hsame
        exact List.mem_append_right _ List.mem_cons_self
      · have hapart := (List.pairwise_append.mp hfits.apart).2.2
        exact hapart earlier hdone _ List.mem_cons_self hsame
  | fault _ h _ hdisk => exact absurd (h.isSound hsound) hdisk.not_isSound

theorem Writes.files_eq {files : List Written} (h : Writes session outputs files later)
    (hapart : Output.Apart outputs) :
    later.disk.files = Files.fill session.disk.files outputs := by
  funext components
  by_cases hmem : ∃ output ∈ outputs, output.path.components = components
  · obtain ⟨output, hmem, rfl⟩ := hmem
    rw [h.filled output hmem, Files.fill_of_mem hapart hmem]
  · have hne : ∀ output ∈ outputs, output.path.components ≠ components :=
      fun output houtput heq => hmem ⟨output, houtput, heq⟩
    rw [h.untouched components hne, Files.fill_of_ne hne]

theorem Writes.written_eq {files : List Written} (h : Writes session outputs files later)
    (hsound : session.disk.IsSound) : files = outputs.map (Output.report session.disk.files) := by
  have hreports := h.reports
  clear h
  induction hreports with
  | nil => rfl
  | cons hreport _ ih => rw [List.map_cons, ih, hreport.eq hsound]

variable {root : Path} {unit : LengthUnit} {call : Call} {report : FileReport}

theorem compile_eq_ok_iff (htidy : session.Tidy) (hsound : session.disk.IsSound) :
    (session.compile root unit call).1 = .ok report ↔
      (call.read unit).isOk = true ∧ session.Fits (call.outputs root unit) ∧
        report = call.report root unit session.disk.files := by
  unfold Call.report Call.outputs
  cases hread : call.read unit with
  | error complaint =>
      rw [compile_of_complaint hread]
      simp [Except.isOk, Except.toBool]
  | ok analysis =>
      obtain ⟨outcome, hends, hresult, hlater⟩ := @compile_ends _ htidy root _ _ _ hread
      rw [hresult, map_eq_ok]
      constructor
      · rintro ⟨files, rfl, rfl⟩
        cases hends with
        | complete h => exact ⟨rfl, h.fits hlater, by rw [h.written_eq hsound]; rfl⟩
      · rintro ⟨-, hfits, rfl⟩
        obtain ⟨files, rfl, hwrites⟩ := hends.writes hsound hfits
        exact ⟨files, rfl, by rw [hwrites.written_eq hsound]; rfl⟩

/-- The outputs of a timeline that is compiled are written. -/
theorem writes_of_compile (htidy : session.Tidy)
    (h : (session.compile root unit call).1 = .ok report) :
    Writes session (call.outputs root unit) report.written
      (session.compile root unit call).2 := by
  unfold Call.outputs
  cases hread : call.read unit with
  | error complaint =>
      rw [compile_of_complaint hread] at h
      contradiction
  | ok analysis =>
      obtain ⟨outcome, hends, hresult, -⟩ := @compile_ends _ htidy root _ _ _ hread
      rw [hresult, map_eq_ok] at h
      obtain ⟨files, rfl, rfl⟩ := h
      cases hends with
      | complete h => exact h

/-! ## Several timelines -/

/-- Compiles timelines in order, up to the first that fails. -/
def compileAll (session : Session) (root : Path) (unit : LengthUnit) :
    List Call → Except Failure (List FileReport) × Session
  | [] => (.ok [], session)
  | call :: calls =>
    match session.compile root unit call with
    | (.error failure, later) => (.error failure, later)
    | (.ok report, later) =>
      let (reports, last) := later.compileAll root unit calls
      (reports.map (report :: ·), last)

variable {calls : List Call} {reports : List FileReport}

theorem compileAll_cons_of_error {failure : Failure}
    (h : (session.compile root unit call).1 = .error failure) (calls : List Call) :
    session.compileAll root unit (call :: calls) =
      (.error failure, (session.compile root unit call).2) := by
  rw [compileAll]
  generalize session.compile root unit call = result at h
  obtain ⟨outcome, later⟩ := result
  cases h
  rfl

theorem compileAll_cons_of_ok (h : (session.compile root unit call).1 = .ok report)
    (calls : List Call) :
    session.compileAll root unit (call :: calls) =
      (((session.compile root unit call).2.compileAll root unit calls).1.map (report :: ·),
        ((session.compile root unit call).2.compileAll root unit calls).2) := by
  rw [compileAll]
  generalize session.compile root unit call = result at h
  obtain ⟨outcome, later⟩ := result
  cases h
  rfl

/-- Behind outputs that were written, those fit that fit together with them. -/
theorem Writes.fits_append_iff {files : List Written} {others : List Output}
    (h : Writes session outputs files later) (hfits : session.Fits outputs) :
    session.Fits (outputs ++ others) ↔ later.Fits others := by
  constructor
  · rintro ⟨hapart, hfree⟩
    rw [Output.Apart, List.pairwise_append] at hapart
    refine ⟨hapart.2.1, fun entry hentry output hmem => ?_⟩
    rw [h.reserved] at hentry
    rcases List.mem_append.mp hentry with hold | hnew
    · exact hfree entry hold output (List.mem_append_right _ hmem)
    · obtain ⟨earlier, hdone, rfl⟩ := List.mem_map.mp hnew
      exact hapart.2.2 earlier hdone output hmem
  · rintro ⟨hapart, hfree⟩
    rw [h.reserved] at hfree
    constructor
    · refine List.pairwise_append.mpr ⟨hfits.apart, hapart, fun earlier hdone output hmem => ?_⟩
      have hentry := List.mem_map_of_mem (f := fun o => (Output.path o, Output.producer o)) hdone
      exact hfree _ (List.mem_append_right _ hentry) output hmem
    · intro entry hentry output hmem
      rcases List.mem_append.mp hmem with hmem | hmem
      · exact hfits.free entry hentry output hmem
      · exact hfree entry (List.mem_append_left _ hentry) output hmem

/-- Timelines do not see the outputs of another one. -/
theorem reports_eq_of_writes {files : List Written} (h : Writes session outputs files later)
    (hfits : session.Fits (outputs ++ Call.allOutputs root unit calls)) :
    calls.map (Call.report root unit later.disk.files) =
      calls.map (Call.report root unit session.disk.files) := by
  have hapart := List.pairwise_append.mp hfits.apart
  apply List.map_congr_left
  intro call hcall
  have hreport : (call.outputs root unit).map (Output.report later.disk.files) =
      (call.outputs root unit).map (Output.report session.disk.files) := by
    apply List.map_congr_left
    intro output houtput
    have hmem : output ∈ Call.allOutputs root unit calls :=
      List.mem_flatMap.mpr ⟨call, hcall, houtput⟩
    rw [h.files_eq hapart.1]
    apply Files.report_fill_of_ne
    exact fun other hother => hapart.2.2 other hother output hmem
  rw [Call.report, Call.report, hreport]

/-- A run succeeds exactly when all timelines can be read and their outputs fit. -/
theorem compileAll_eq_ok_iff (htidy : session.Tidy) (hsound : session.disk.IsSound) :
    (session.compileAll root unit calls).1 = .ok reports ↔
      (∀ call ∈ calls, (call.read unit).isOk = true) ∧
        session.Fits (Call.allOutputs root unit calls) ∧
          reports = calls.map (Call.report root unit session.disk.files) := by
  induction calls generalizing session reports with
  | nil =>
      constructor
      · intro h
        cases h
        exact ⟨List.forall_mem_nil _, ⟨.nil, fun _ _ => List.forall_mem_nil _⟩, rfl⟩
      · rintro ⟨-, -, rfl⟩
        rfl
  | cons call calls ih =>
      rw [List.forall_mem_cons, Call.allOutputs_cons, List.map_cons]
      cases hone : (session.compile root unit call).1 with
      | error failure =>
          rw [compileAll_cons_of_error hone]
          refine iff_of_false nofun ?_
          rintro ⟨⟨hread, -⟩, hfits, -⟩
          have hok := (compile_eq_ok_iff htidy hsound).mpr ⟨hread, hfits.left, rfl⟩
          rw [hone] at hok
          contradiction
      | ok report =>
          have hwrites := writes_of_compile htidy hone
          have hlater := tidy_compile htidy root unit call
          obtain ⟨hread, hfits, hreport⟩ := (compile_eq_ok_iff htidy hsound).mp hone
          have hrest := fun reports => @ih _ reports hlater (hwrites.isSound hsound)
          rw [compileAll_cons_of_ok hone, map_eq_ok]
          constructor
          · rintro ⟨reports, hok, rfl⟩
            obtain ⟨hreads, hfree, hreports⟩ := (hrest reports).mp hok
            have hall := (hwrites.fits_append_iff hfits).mpr hfree
            rw [reports_eq_of_writes hwrites hall] at hreports
            exact ⟨⟨hread, hreads⟩, hall, by rw [hreport, hreports]⟩
          · rintro ⟨⟨-, hreads⟩, hall, rfl⟩
            have hfree := (hwrites.fits_append_iff hfits).mp hall
            have hok := (hrest _).mpr ⟨hreads, hfree, rfl⟩
            rw [reports_eq_of_writes hwrites hall] at hok
            exact ⟨_, hok, by rw [hreport]⟩

/-- What a run has changed in the end. -/
theorem later_of_compileAll (htidy : session.Tidy) (hsound : session.disk.IsSound)
    (h : (session.compileAll root unit calls).1 = .ok reports) :
    (session.compileAll root unit calls).2.disk.files =
        Files.fill session.disk.files (Call.allOutputs root unit calls) ∧
      (session.compileAll root unit calls).2.disk.log = session.disk.log ++
        ((reports.flatMap FileReport.written).filter fun file =>
          file.status ≠ .unchanged).map Written.path := by
  induction calls generalizing session reports with
  | nil =>
      cases h
      exact ⟨rfl, (List.append_nil _).symm⟩
  | cons call calls ih =>
      cases hone : (session.compile root unit call).1 with
      | error failure =>
          rw [compileAll_cons_of_error hone] at h
          contradiction
      | ok report =>
          have hwrites := writes_of_compile htidy hone
          have hlater := tidy_compile htidy root unit call
          have hfits := ((compile_eq_ok_iff htidy hsound).mp hone).2.1
          rw [compileAll_cons_of_ok hone] at h ⊢
          obtain ⟨rest, hrest, rfl⟩ := map_eq_ok.mp h
          obtain ⟨hfiles, hlog⟩ := ih hlater (hwrites.isSound hsound) hrest
          constructor
          · rw [hfiles, hwrites.files_eq hfits.apart, Call.allOutputs_cons, Files.fill_append]
          · rw [hlog, hwrites.log, List.flatMap_cons, List.filter_append, List.map_append,
              List.append_assoc]

/-! ## Timelines from files -/

theorem readText_eq {disk : Disk} (hfaults : disk.faults = []) {path : Path} {text : String}
    (h : disk.files path.components = some text.toUTF8) :
    Disk.host.readText path disk = (.ok text, disk) := by
  have hadvance : disk.advance = disk := by
    obtain ⟨files, log, faults⟩ := disk
    cases hfaults
    rfl
  have hread : Disk.host.read path disk = (.ok text.toUTF8, disk) := by
    simp only [Disk.host, Disk.call, Disk.due?, hfaults, List.head?_nil, Option.join_none,
      hadvance, Disk.look, h]
  have htext : String.fromUTF8? text.toUTF8 = some text := dif_pos text.isValidUTF8
  simp only [Host.readText, bind, StateT.bind, hread, htext]
  rfl

/-- The timeline in a file. -/
def fileCall (source : Path → String) (path : Path) : Call :=
  ⟨path.text, source path⟩

theorem compileFile_eq {source : Path → String} {path : Path} (hfaults : session.disk.faults = [])
    (h : session.disk.files path.components = some (source path).toUTF8) :
    compileFile Disk.host root unit session.reserved path session.disk =
      (((session.compile root unit (fileCall source path)).2.reserved,
          (session.compile root unit (fileCall source path)).1),
        (session.compile root unit (fileCall source path)).2.disk) := by
  simp only [compileFile, bind, StateT.bind, readText_eq hfaults h, compile, fileCall]
  rfl

/-- Timelines in files that are no outputs are compiled as the files are at the start. -/
theorem compileFiles_eq {source : Path → String} {paths : List Path} (htidy : session.Tidy)
    (hfaults : session.disk.faults = [])
    (hread : ∀ path ∈ paths, session.disk.files path.components = some (source path).toUTF8)
    (hother : ∀ output ∈ Call.allOutputs root unit (paths.map (fileCall source)),
      ∀ path ∈ paths, output.path.components ≠ path.components) :
    compileFiles Disk.host root unit session.reserved paths session.disk =
      let result := session.compileAll root unit (paths.map (fileCall source))
      ((result.2.reserved, result.1), result.2.disk) := by
  induction paths generalizing session with
  | nil => rfl
  | cons path paths ih =>
      rw [List.forall_mem_cons] at hread
      rw [List.map_cons, Call.allOutputs_cons, List.forall_mem_append] at hother
      have hone := @compileFile_eq session root unit source path hfaults hread.1
      rw [List.map_cons]
      simp only [compileFiles, bind, StateT.bind, hone]
      cases hresult : (session.compile root unit (fileCall source path)).1 with
      | error failure =>
          rw [compileAll_cons_of_error hresult]
          rfl
      | ok report =>
          have hwrites := writes_of_compile htidy hresult
          have hlater : (session.compile root unit (fileCall source path)).2.disk.faults = [] :=
            List.suffix_nil.mp (hfaults ▸ hwrites.faults)
          have hkept : ∀ other ∈ paths,
              (session.compile root unit (fileCall source path)).2.disk.files other.components =
                some (source other).toUTF8 := by
            intro other hmem
            rw [hwrites.untouched, hread.2 other hmem]
            exact fun output houtput => hother.1 output houtput other (List.mem_cons_of_mem _ hmem)
          have hrest := ih (tidy_compile htidy root unit _) hlater hkept
            fun output houtput other hmem =>
              hother.2 output houtput other (List.mem_cons_of_mem _ hmem)
          rw [compileAll_cons_of_ok hresult]
          simp only [StateT.bind, hrest]
          rfl

end Session

/-- The report of a run that finds every file in its place. -/
def FileReport.untouched (report : FileReport) : FileReport :=
  { report with written := report.written.map fun file => { file with status := .unchanged } }

namespace Session

theorem untouched_report {files : Files} (hapart : Output.Apart (Call.allOutputs root unit calls))
    (hcall : call ∈ calls) :
    call.report root unit (Files.fill files (Call.allOutputs root unit calls)) =
      (call.report root unit files).untouched := by
  have hwritten : (call.outputs root unit).map
        (Output.report (Files.fill files (Call.allOutputs root unit calls))) =
      ((call.outputs root unit).map (Output.report files)).map
        fun file => { file with status := .unchanged } := by
    rw [List.map_map]
    apply List.map_congr_left
    intro output houtput
    have hmem : output ∈ Call.allOutputs root unit calls :=
      List.mem_flatMap.mpr ⟨call, hcall, houtput⟩
    rw [Output.report, Files.status_fill hapart hmem]
    rfl
  rw [Call.report, hwritten]
  rfl

/-- Where a run succeeds, a second one on the files that it leaves succeeds too. It reports
the same files, all of them as unchanged, and it writes nothing. -/
theorem compileAll_again (files : Files) (root : Path) (unit : LengthUnit) (calls : List Call)
    {reports : List FileReport}
    (h : ((start files []).compileAll root unit calls).1 = .ok reports) :
    let later := ((start files []).compileAll root unit calls).2
    let again := (start later.disk.files []).compileAll root unit calls
    again.1 = .ok (reports.map FileReport.untouched) ∧
      again.2.disk.files = later.disk.files ∧ again.2.disk.log = [] := by
  have htidy := tidy_start files []
  have hsound := isSound_start files
  obtain ⟨hreads, hfits, hreports⟩ := (compileAll_eq_ok_iff htidy hsound).mp h
  have hfiles := (later_of_compileAll htidy hsound h).1
  intro later again
  have hagain : again.1 = .ok (reports.map FileReport.untouched) := by
    apply (compileAll_eq_ok_iff (tidy_start _ []) (isSound_start _)).mpr
    refine ⟨hreads, fits_start_iff.mpr hfits.apart, ?_⟩
    rw [hreports, List.map_map]
    apply List.map_congr_left
    intro call hcall
    have hdisk : (start later.disk.files []).disk.files = _ := hfiles
    rw [hdisk, untouched_report hfits.apart hcall]
    rfl
  obtain ⟨hend, hlog⟩ := later_of_compileAll (tidy_start _ []) (isSound_start _) hagain
  refine ⟨hagain, ?_, ?_⟩
  · calc
      again.2.disk.files = Files.fill later.disk.files (Call.allOutputs root unit calls) := hend
      _ = later.disk.files := by rw [hfiles]; exact Files.fill_fill hfits.apart files
  · have hnone : (((reports.map FileReport.untouched).flatMap FileReport.written).filter fun file =>
        file.status ≠ .unchanged) = [] := by
      rw [List.filter_eq_nil_iff]
      intro file hfile
      obtain ⟨report, hreport, hmem⟩ := List.mem_flatMap.mp hfile
      obtain ⟨old, -, rfl⟩ := List.mem_map.mp hreport
      obtain ⟨before, -, rfl⟩ := List.mem_map.mp hmem
      simp
    calc
      again.2.disk.log = [] ++ _ := hlog
      _ = [] := by rw [hnone]; rfl

/-- Two timelines: a family of sketches, and a sketch that uses a unit and a parameter of its
own. -/
def twoTimelines : List Call :=
  [⟨"ribs.txt", "parameters\nr, 4\nsketch, wing, rib\noffset_plane, z, 0\ncircle\n0, 0, $r\n" ++
      "sketch, wing, rib\noffset_plane, z, 12.5\ncircle\n0, 0, $r\n"⟩,
    ⟨"spar.txt", "units, cm\nparameters\nr, 2 * 3\nsketch, wing, spar\noffset_plane, x, 1\n" ++
      "line, co_rail, edge\n0, 0\n$r, 1\n"⟩]

theorem isOk_compileAll_twoTimelines :
    ((start (fun _ => none) []).compileAll ⟨"out"⟩ .mm twoTimelines).1.isOk = true := by
  decide +kernel

theorem exists_compileAll_again : ∃ reports,
    let first := (start (fun _ => none) []).compileAll ⟨"out"⟩ .mm twoTimelines
    let again := (start first.2.disk.files []).compileAll ⟨"out"⟩ .mm twoTimelines
    first.1 = .ok reports ∧ again.1 = .ok (reports.map FileReport.untouched) ∧
      again.2.disk.files = first.2.disk.files ∧ again.2.disk.log = [] := by
  obtain ⟨reports, hreports⟩ := exists_of_isOk isOk_compileAll_twoTimelines
  exact ⟨reports, hreports, compileAll_again (fun _ => none) ⟨"out"⟩ .mm twoTimelines hreports⟩

/-! ## The order of timelines -/

theorem apart_outputs (h : Output.Apart (Call.allOutputs root unit calls)) (hcall : call ∈ calls) :
    Output.Apart (call.outputs root unit) := by
  apply List.Pairwise.sublist _ h
  apply List.sublist_flatten_of_mem
  exact List.mem_map_of_mem hcall

/-- Where a run succeeds, it succeeds in any order of its timelines and leaves the same
files. The report of each timeline is the one that it has when it is compiled alone. -/
theorem compileAll_perm (files : Files) (root : Path) (unit : LengthUnit) {calls others : List Call}
    (hperm : calls.Perm others) {reports : List FileReport}
    (h : ((start files []).compileAll root unit calls).1 = .ok reports) :
    ∃ report : Call → FileReport, reports = calls.map report ∧
      (∀ call ∈ calls, ((start files []).compile root unit call).1 = .ok (report call)) ∧
      ((start files []).compileAll root unit others).1 = .ok (others.map report) ∧
      ((start files []).compileAll root unit others).2.disk.files =
        ((start files []).compileAll root unit calls).2.disk.files := by
  have htidy := tidy_start files []
  have hsound := isSound_start files
  obtain ⟨hreads, hfits, hreports⟩ := (compileAll_eq_ok_iff htidy hsound).mp h
  have houtputs : (Call.allOutputs root unit calls).Perm (Call.allOutputs root unit others) :=
    hperm.flatMap_right _
  have hapart : Output.Apart (Call.allOutputs root unit others) :=
    houtputs.pairwise hfits.apart fun hne => Ne.symm hne
  have hothers : ((start files []).compileAll root unit others).1 =
      .ok (others.map (Call.report root unit files)) := by
    apply (compileAll_eq_ok_iff htidy hsound).mpr
    exact ⟨fun call hcall => hreads call (hperm.mem_iff.mpr hcall), fits_start_iff.mpr hapart, rfl⟩
  refine ⟨Call.report root unit files, hreports, fun call hcall => ?_, hothers, ?_⟩
  · apply (compile_eq_ok_iff htidy hsound).mpr
    exact ⟨hreads call hcall, fits_start_iff.mpr (apart_outputs hfits.apart hcall), rfl⟩
  · calc
      ((start files []).compileAll root unit others).2.disk.files
        = Files.fill files (Call.allOutputs root unit others) :=
          (later_of_compileAll htidy hsound hothers).1
      _ = Files.fill files (Call.allOutputs root unit calls) :=
          (Files.fill_perm houtputs hfits.apart files).symm
      _ = ((start files []).compileAll root unit calls).2.disk.files :=
          (later_of_compileAll htidy hsound h).1.symm

theorem exists_compileAll_perm : ∃ reports, ∃ report : Call → FileReport,
    twoTimelines.Perm twoTimelines.reverse ∧
      ((start (fun _ => none) []).compileAll ⟨"out"⟩ .mm twoTimelines).1 = .ok reports ∧
      reports = twoTimelines.map report ∧
      (∀ call ∈ twoTimelines,
        ((start (fun _ => none) []).compile ⟨"out"⟩ .mm call).1 = .ok (report call)) ∧
      ((start (fun _ => none) []).compileAll ⟨"out"⟩ .mm twoTimelines.reverse).1 =
        .ok (twoTimelines.reverse.map report) ∧
      ((start (fun _ => none) []).compileAll ⟨"out"⟩ .mm twoTimelines.reverse).2.disk.files =
        ((start (fun _ => none) []).compileAll ⟨"out"⟩ .mm twoTimelines).2.disk.files := by
  obtain ⟨reports, hreports⟩ := exists_of_isOk isOk_compileAll_twoTimelines
  have hperm : twoTimelines.Perm twoTimelines.reverse := (List.reverse_perm _).symm
  obtain ⟨report, hrest⟩ := compileAll_perm (fun _ => none) ⟨"out"⟩ .mm hperm hreports
  exact ⟨reports, report, hperm, hreports, hrest⟩

end Session

end CadTimeline
