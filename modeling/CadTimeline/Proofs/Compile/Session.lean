import CadTimeline.Proofs.Compile.Plan
import CadTimeline.Proofs.Store.Disk
import Mathlib.Data.List.Forall2

/-!
# Sessions of a compiler

A compiler keeps its reserved paths from one call to the next, also when a call
fails. Each call writes its plan in order, up to the first output whose path is taken
or whose writing fails, and nothing is written twice.
-/

namespace CadTimeline

/-! ## Taking paths -/

namespace Reservations

/-- No path is taken twice, however it is spelled. -/
def Distinct (reserved : Reservations) : Prop :=
  reserved.entries.Pairwise fun a b => a.1.components ≠ b.1.components

theorem holder?_eq_some {reserved : Reservations} {path : Path} {location : Location}
    (h : reserved.holder? path = some location) :
    ∃ held, (held, location) ∈ reserved.entries ∧ held.components = path.components := by
  obtain ⟨⟨held, first⟩, hfind, rfl⟩ := Option.map_eq_some_iff.mp h
  have hsame := List.find?_some hfind
  exact ⟨held, List.mem_of_find?_eq_some hfind, by simpa [Path.same] using hsame⟩

theorem holder?_eq_none {reserved : Reservations} {path : Path}
    (h : reserved.holder? path = none) :
    ∀ entry ∈ reserved.entries, entry.1.components ≠ path.components := by
  intro entry hmem
  have hfind := List.find?_eq_none.mp (Option.map_eq_none_iff.mp h) entry hmem
  simpa [Path.same] using hfind

/-- The reservations with one more path. -/
def add (reserved : Reservations) (path : Path) (location : Location) : Reservations :=
  ⟨reserved.entries ++ [(path, location)]⟩

theorem Distinct.add {reserved : Reservations} (h : reserved.Distinct) {path : Path}
    (hfree : reserved.holder? path = none) (location : Location) :
    (reserved.add path location).Distinct := by
  refine List.pairwise_append.mpr ⟨h, List.pairwise_singleton _ _, ?_⟩
  intro entry hmem other hother
  rw [List.mem_singleton] at hother
  subst hother
  exact holder?_eq_none hfree entry hmem

end Reservations

/-! ## Calls of one compiler -/

/-- A timeline given to the compiler. -/
structure Call where
  file : String
  source : String

/-- What stays between the calls of one compiler. -/
structure Session where
  reserved : Reservations
  disk : Disk

namespace Session

/-- A new compiler in front of a disk. -/
def start (files : List Path.Component → Option ByteArray)
    (faults : List (Option Disk.Interruption)) : Session :=
  ⟨.empty, ⟨files, [], faults⟩⟩

def compile (session : Session) (root : Path) (unit : LengthUnit) (call : Call) :
    Except Failure FileReport × Session :=
  let ((reserved, result), disk) :=
    compileSource Disk.host.put root unit session.reserved call.file call.source session.disk
  (result, ⟨reserved, disk⟩)

/-- The session after some calls, whether they succeed or fail. -/
def run (session : Session) (root : Path) (unit : LengthUnit) (calls : List Call) : Session :=
  calls.foldl (fun session call => (session.compile root unit call).2) session

/-- No two files are reserved at one path, and no path has been written twice or
without being reserved. -/
structure Tidy (session : Session) : Prop where
  distinct : session.reserved.Distinct
  once : session.disk.log.Pairwise fun p q => p.components ≠ q.components
  reserved : ∀ path ∈ session.disk.log, ∃ location, (path, location) ∈ session.reserved.entries

theorem tidy_start (files : List Path.Component → Option ByteArray)
    (faults : List (Option Disk.Interruption)) : (start files faults).Tidy :=
  ⟨List.Pairwise.nil, List.Pairwise.nil, fun _ h => absurd h (List.not_mem_nil)⟩

/-- The report names the output, with the status that fits what the disk held. -/
def Reports (disk : Disk) (output : Output) (file : Written) : Prop :=
  file.path = output.path ∧ file.kind = output.kind ∧ file.line = output.line ∧
    disk.Explains output.path output.text.toUTF8 file.status

/-- The session after these outputs were given their texts in order and nothing else
happened. Files that had their text already were not written. -/
structure Writes (session : Session) (done : List Output) (files : List Written)
    (later : Session) : Prop where
  reserved : later.reserved.entries =
    session.reserved.entries ++ done.map fun output => (output.path, output.producer)
  reports : List.Forall₂ (Reports session.disk) done files
  log : later.disk.log = session.disk.log ++
    (files.filter fun file => file.status ≠ .unchanged).map Written.path
  filled : ∀ output ∈ done,
    later.disk.files output.path.components = some output.text.toUTF8
  untouched : ∀ components, (∀ output ∈ done, output.path.components ≠ components) →
    later.disk.files components = session.disk.files components
  faults : later.disk.faults <:+ session.disk.faults

/-- The file at a reserved path: one of this call holds its text, and one of an
earlier call is as it was. -/
def Kept (session : Session) (done : List Output) (later : Session) (held : Path)
    (location : Location) : Prop :=
  ((held, location) ∈ session.reserved.entries ∧
    later.disk.files held.components = session.disk.files held.components) ∨
  ∃ output ∈ done, output.path = held ∧ output.producer = location ∧
    later.disk.files held.components = some output.text.toUTF8

/-- How writing a plan ends. -/
inductive Ends (session : Session) (plan : List Output) :
    Except Failure (List Written) → Session → Prop
  | complete {files : List Written} {later : Session} (h : Writes session plan files later) :
      Ends session plan (.ok files) later
  /-- The path of the next output is taken. -/
  | collision {done rest : List Output} {output : Output} {files : List Written}
      {later : Session} {held : Path} {first : Location} (hplan : plan = done ++ output :: rest)
      (h : Writes session done files later)
      (hsame : held.components = output.path.components) (hkept : Kept session done later held first) :
      Ends session plan (.error (.collision output.path first output.producer)) later
  /-- A call about the next output fails. Its path stays reserved, and at most its file
  has changed. -/
  | fault {done rest : List Output} {output : Output} {files : List Written}
      {middle later : Session} {place : Path} {fault : StoreFault}
      (hplan : plan = done ++ output :: rest) (h : Writes session done files middle)
      (hreserved : later.reserved = middle.reserved.add output.path output.producer)
      (hdisk : Disk.Broken middle.disk output.path output.text.toUTF8 (place, fault) later.disk) :
      Ends session plan (.error (.store place fault)) later

/-! ## One output -/

variable {session middle : Session} {done : List Output} {files : List Written}

theorem Writes.mem_entries (h : Writes session done files middle) {output : Output}
    (hmem : output ∈ done) : (output.path, output.producer) ∈ middle.reserved.entries := by
  rw [h.reserved]
  exact List.mem_append_right _ (List.mem_map_of_mem hmem)

/-- A free path is none of those written before. -/
theorem Writes.ne_of_free (h : Writes session done files middle) {path : Path}
    (hfree : middle.reserved.holder? path = none) :
    ∀ output ∈ done, output.path.components ≠ path.components :=
  fun _ hmem => Reservations.holder?_eq_none hfree _ (h.mem_entries hmem)

theorem Writes.isSound (h : Writes session done files middle) (hs : session.disk.IsSound) :
    middle.disk.IsSound :=
  hs.of_suffix h.faults

/-- At a free path the disk is as it was at the start. -/
theorem Writes.explains (h : Writes session done files middle) {path : Path}
    (hfree : middle.reserved.holder? path = none) {content : ByteArray} {status : WriteStatus}
    (hs : middle.disk.Explains path content status) :
    session.disk.Explains path content status := by
  have hfile := h.untouched path.components (h.ne_of_free hfree)
  cases status with
  | created =>
      exact hs.imp (fun hnone => hfile ▸ hnone) fun hunsound hs => hunsound (h.isSound hs)
  | updated =>
      obtain ⟨old, hold, hne⟩ := hs
      exact ⟨old, hfile ▸ hold, hne⟩
  | unchanged =>
      have hold : middle.disk.files path.components = some content := hs
      exact hfile.symm.trans hold

theorem Writes.kept (h : Writes session done files middle) (htidy : middle.Tidy) {held : Path}
    {location : Location} (hmem : (held, location) ∈ middle.reserved.entries) :
    Kept session done middle held location := by
  have hdistinct := htidy.distinct
  rw [Reservations.Distinct, h.reserved] at hdistinct
  rw [h.reserved] at hmem
  rcases List.mem_append.mp hmem with hold | hnew
  · refine .inl ⟨hold, h.untouched _ fun output hdone => Ne.symm ?_⟩
    exact (List.pairwise_append.mp hdistinct).2.2 _ hold _ (List.mem_map_of_mem hdone)
  · obtain ⟨output, hdone, heq⟩ := List.mem_map.mp hnew
    cases heq
    exact .inr ⟨output, hdone, rfl, rfl, h.filled output hdone⟩

theorem Writes.nil (session : Session) : Writes session [] [] session where
  reserved := by simp
  reports := .nil
  log := by simp
  filled := by simp
  untouched := fun _ _ => rfl
  faults := List.suffix_rfl

theorem Writes.snoc (h : Writes session done files middle) {output : Output}
    {status : WriteStatus} {disk : Disk} (hfree : middle.reserved.holder? output.path = none)
    (hfill : Disk.Filled middle.disk output.path output.text.toUTF8 status disk) :
    Writes session (done ++ [output])
      (files ++ [⟨output.path, output.kind, output.line, status⟩])
      ⟨middle.reserved.add output.path output.producer, disk⟩ where
  reserved := by simp [Reservations.add, h.reserved]
  reports := by
    refine List.rel_append h.reports (.cons ⟨rfl, rfl, rfl, ?_⟩ .nil)
    exact h.explains hfree hfill.explains
  log := by
    rw [hfill.log, h.log]
    by_cases hu : status = .unchanged <;> simp [hu]
  filled := by
    intro other hmem
    rw [hfill.files]
    rcases List.mem_append.mp hmem with hmem | hmem
    · rw [Function.update_of_ne (h.ne_of_free hfree other hmem)]
      exact h.filled other hmem
    · rw [List.mem_singleton.mp hmem]
      exact Function.update_self ..
  untouched := by
    intro components hne
    have hlast : output.path.components ≠ components :=
      hne output (List.mem_append_right _ (List.mem_singleton_self _))
    rw [hfill.files, Function.update_of_ne hlast.symm]
    exact h.untouched components fun other hmem => hne other (List.mem_append_left _ hmem)
  faults := hfill.faults.trans h.faults

/-- The session stays tidy when a free path is taken, and written at most once. -/
theorem Tidy.take (h : middle.Tidy) {output : Output} {disk : Disk} {new : List Path}
    (hfree : middle.reserved.holder? output.path = none)
    (hlog : disk.log = middle.disk.log ++ new) (hnew : new.Sublist [output.path]) :
    Tidy ⟨middle.reserved.add output.path output.producer, disk⟩ where
  distinct := h.distinct.add hfree _
  once := by
    rw [hlog]
    refine List.pairwise_append.mpr ⟨h.once, (List.pairwise_singleton _ _).sublist hnew, ?_⟩
    intro path hmem other hother
    obtain ⟨location, hentry⟩ := h.reserved path hmem
    rw [List.mem_singleton.mp (hnew.subset hother)]
    exact Reservations.holder?_eq_none hfree _ hentry
  reserved := by
    intro path hmem
    rw [hlog] at hmem
    rcases List.mem_append.mp hmem with hmem | hmem
    · obtain ⟨location, hentry⟩ := h.reserved path hmem
      exact ⟨location, List.mem_append_left _ hentry⟩
    · rw [List.mem_singleton.mp (hnew.subset hmem)]
      exact ⟨output.producer, List.mem_append_right _ (List.mem_singleton_self _)⟩

/-! ## Whole plans -/

/-- What a stretch of writing has come to: how it ended, what was written, and the
disk it left. -/
abbrev Result := (Except Failure Unit × Progress) × Disk

def runWriting (writing : Writing (StateM Disk) Unit) (progress : Progress) (disk : Disk) :
    Result :=
  writing.run.run progress disk

def Result.after (result : Result) : Session :=
  ⟨result.1.2.reserved, result.2⟩

def Result.report (result : Result) : Except Failure (List Written) :=
  result.1.1.map fun _ => result.1.2.written

/-- Writing an output takes its path first. -/
theorem runWriting_reserve (output : Output) (progress : Progress) (disk : Disk) :
    runWriting (writeOutput Disk.host.put output) progress disk =
      runWriting (match progress.reserved.reserve output.path output.producer with
        | .error failure => throw failure
        | .ok reserved => do
          set { progress with reserved }
          noteOutput output (← liftM (Disk.host.put output.path output.text))) progress disk :=
  rfl

theorem runWriting_writeOutput (output : Output) (progress : Progress) (disk : Disk) :
    runWriting (writeOutput Disk.host.put output) progress disk =
      match progress.reserved.holder? output.path with
      | some first =>
        ((.error (.collision output.path first output.producer), progress), disk)
      | none =>
        let reserved := progress.reserved.add output.path output.producer
        match Disk.host.put output.path output.text disk with
        | (.error (place, fault), later) =>
          ((.error (.store place fault), ⟨reserved, progress.written⟩), later)
        | (.ok status, later) =>
          ((.ok (), ⟨reserved, progress.written ++
            [⟨output.path, output.kind, output.line, status⟩]⟩), later) := by
  rw [runWriting_reserve]
  unfold Reservations.reserve
  cases progress.reserved.holder? output.path with
  | some first => rfl
  | none =>
      change runWriting (noteOutput output (Disk.host.put output.path output.text disk).1)
        ⟨progress.reserved.add output.path output.producer, progress.written⟩
        (Disk.host.put output.path output.text disk).2 = _
      generalize Disk.host.put output.path output.text disk = result
      rcases result with ⟨⟨place, fault⟩ | status, later⟩ <;> rfl

theorem runWriting_bind (first rest : Writing (StateM Disk) Unit) (progress : Progress)
    (disk : Disk) :
    runWriting (first >>= fun _ => rest) progress disk =
      match runWriting first progress disk with
      | ((.ok _, progress), disk) => runWriting rest progress disk
      | ((.error failure, progress), disk) => ((.error failure, progress), disk) := by
  have hrun : runWriting (first >>= fun _ => rest) progress disk =
      ExceptT.bindCont (fun _ => rest) (runWriting first progress disk).1.1
        (runWriting first progress disk).1.2 (runWriting first progress disk).2 := rfl
  rw [hrun]
  generalize runWriting first progress disk = result
  rcases result with ⟨⟨failure | done, progress⟩, disk⟩ <;> rfl

/-- Writing outputs goes on from what has been written, and ends as a plan can end. -/
theorem forM_ends (rest : List Output) {session : Session} {done : List Output}
    {progress : Progress} {disk : Disk} (htidy : Tidy ⟨progress.reserved, disk⟩)
    (h : Writes session done progress.written ⟨progress.reserved, disk⟩) :
    let result := runWriting (rest.forM (writeOutput Disk.host.put)) progress disk
    Ends session (done ++ rest) result.report result.after ∧ result.after.Tidy := by
  induction rest generalizing done progress disk with
  | nil =>
      rw [List.append_nil]
      exact ⟨.complete h, htidy⟩
  | cons output rest ih =>
      have hcons : (output :: rest).forM (writeOutput Disk.host.put) =
        (writeOutput Disk.host.put output >>= fun _ => rest.forM (writeOutput Disk.host.put)) := rfl
      rw [hcons, runWriting_bind, runWriting_writeOutput]
      cases hholder : progress.reserved.holder? output.path with
      | some first =>
          obtain ⟨held, hheld, hsame⟩ := Reservations.holder?_eq_some hholder
          exact ⟨.collision rfl h hsame (h.kept htidy hheld), htidy⟩
      | none =>
          have hput := Disk.put_ends disk output.path output.text
          dsimp only
          generalize Disk.host.put output.path output.text disk = result at hput
          obtain ⟨outcome, later⟩ := result
          cases hput with
          | filled hfill =>
              obtain ⟨new, hlog, hnew⟩ := hfill.exists_log
              have htidy := htidy.take hholder hlog hnew
              have hend := @ih _ ⟨_, _⟩ _ htidy (h.snoc hholder hfill)
              rwa [← List.append_cons] at hend
          | broken hbroken =>
              obtain ⟨new, hlog, hnew⟩ := hbroken.exists_log
              exact ⟨.fault rfl h rfl hbroken, htidy.take hholder hlog hnew⟩

/-! ## Whole sessions -/

/-- A call of the compiler on a timeline that has been read. -/
theorem compile_of_analysis {session : Session} {root : Path} {unit : LengthUnit} {call : Call}
    {analysis : Analysis} (h : Analysis.ofSource call.file call.source unit = .ok analysis) :
    session.compile root unit call =
      let result := runWriting ((analysis.plan root).forM (writeOutput Disk.host.put))
        ⟨session.reserved, []⟩ session.disk
      (result.report.map (⟨call.file, ·, analysis.echoes, analysis.parameters⟩),
        result.after) := by
  have hwrite := analysis.write_eq_forM_plan Disk.host.put root
  simp only [compile, compileSource, h]
  rw [hwrite]
  generalize (analysis.plan root).forM (writeOutput Disk.host.put) = writing
  change (let result := runWriting writing ⟨session.reserved, []⟩ session.disk
    (result.1.1.map fun _ => (⟨call.file, result.1.2.written, analysis.echoes,
      analysis.parameters⟩ : FileReport), result.after)) = _
  generalize runWriting writing ⟨session.reserved, []⟩ session.disk = result
  rcases result with ⟨⟨failure | _, progress⟩, disk⟩ <;> rfl

theorem compile_of_complaint {session : Session} {root : Path} {unit : LengthUnit} {call : Call}
    {complaint : Complaint} (h : Analysis.ofSource call.file call.source unit = .error complaint) :
    session.compile root unit call = (.error (.complaint complaint), session) := by
  simp only [compile, compileSource, h]
  rfl

theorem compile_ends {session : Session} (htidy : session.Tidy) {root : Path} {unit : LengthUnit}
    {call : Call} {analysis : Analysis}
    (h : Analysis.ofSource call.file call.source unit = .ok analysis) :
    ∃ outcome, Ends session (analysis.plan root) outcome (session.compile root unit call).2 ∧
      (session.compile root unit call).1 =
        outcome.map (⟨call.file, ·, analysis.echoes, analysis.parameters⟩) ∧
      (session.compile root unit call).2.Tidy := by
  have hend := @forM_ends (analysis.plan root) session [] ⟨session.reserved, []⟩ session.disk
    htidy (Writes.nil session)
  rw [compile_of_analysis h]
  exact ⟨_, hend.1, rfl, hend.2⟩

theorem tidy_compile {session : Session} (htidy : session.Tidy) (root : Path)
    (unit : LengthUnit) (call : Call) : (session.compile root unit call).2.Tidy := by
  cases h : Analysis.ofSource call.file call.source unit with
  | error complaint =>
      rw [compile_of_complaint h]
      exact htidy
  | ok analysis =>
      obtain ⟨outcome, -, -, hlater⟩ := compile_ends htidy h
      exact hlater

theorem tidy_run {session : Session} (htidy : session.Tidy) (root : Path) (unit : LengthUnit)
    (calls : List Call) : (session.run root unit calls).Tidy := by
  induction calls generalizing session with
  | nil => exact htidy
  | cons call calls ih => exact ih (tidy_compile htidy root unit call)

/-- However a compiler was used before, a call of it reserves and writes a part of its
plan in order from the start, up to the first output whose path is taken or whose
writing fails. Nothing is written twice, and nothing at all if the timeline cannot be
read. -/
theorem compile_writes_front_of_plan (files : List Path.Component → Option ByteArray)
    (faults : List (Option Disk.Interruption)) (root : Path) (unit : LengthUnit) (calls : List Call)
    (call : Call) :
    let session := (start files faults).run root unit calls
    let result := (session.compile root unit call).1
    let later := (session.compile root unit call).2
    later.Tidy ∧
      match Analysis.ofSource call.file call.source unit with
      | .error complaint => result = .error (.complaint complaint) ∧ later = session
      | .ok analysis =>
        ∃ outcome, Ends session (analysis.plan root) outcome later ∧
          result = outcome.map (⟨call.file, ·, analysis.echoes, analysis.parameters⟩) := by
  have htidy := tidy_run (tidy_start files faults) root unit calls
  intro session result later
  refine ⟨tidy_compile htidy root unit call, ?_⟩
  cases h : Analysis.ofSource call.file call.source unit with
  | error complaint =>
      have hsame : session.compile root unit call = _ := compile_of_complaint h
      exact ⟨congrArg Prod.fst hsame, congrArg Prod.snd hsame⟩
  | ok analysis =>
      obtain ⟨outcome, hends, hresult, -⟩ := compile_ends htidy h
      exact ⟨outcome, hends, hresult⟩

/-! ## What a call reserves -/

theorem Writes.mem_paths (h : Writes session done files middle) :
    files.map Written.path = done.map Output.path := by
  have hforall := h.reports
  clear h
  induction hforall with
  | nil => rfl
  | cons hreport _ ih => rw [List.map_cons, List.map_cons, ih, hreport.1]

/-- The first outputs of a plan, all of them on success, are what has been reserved, and
what has been written is among them. -/
theorem Ends.exists_done {plan : List Output} {outcome : Except Failure (List Written)}
    {later : Session} (h : Ends session plan outcome later) :
    ∃ done written, done <+: plan ∧ (outcome.isOk = true → done = plan) ∧
      later.reserved.entries =
        session.reserved.entries ++ done.map (fun output => (output.path, output.producer)) ∧
      later.disk.log = session.disk.log ++ written ∧ written ⊆ done.map Output.path := by
  have hsubset : ∀ {done : List Output} {files : List Written} {middle : Session},
      Writes session done files middle →
      (files.filter fun file => file.status ≠ .unchanged).map Written.path ⊆
        done.map Output.path := by
    intro done files middle hw path hpath
    rw [← hw.mem_paths]
    obtain ⟨file, hfile, rfl⟩ := List.mem_map.mp hpath
    exact List.mem_map_of_mem (List.mem_of_mem_filter hfile)
  cases h with
  | complete h => exact ⟨plan, _, List.prefix_rfl, fun _ => rfl, h.reserved, h.log, hsubset h⟩
  | @collision done rest output files _ held first hplan h hsame hkept =>
      refine ⟨done, _, ⟨_, hplan.symm⟩, fun hok => ?_, h.reserved, h.log, hsubset h⟩
      cases hok
  | @fault done rest output files middle _ place fault hplan h hreserved hdisk =>
      obtain ⟨new, hlog, hnew⟩ := hdisk.exists_log
      rw [h.log, List.append_assoc] at hlog
      refine ⟨done ++ [output], _, ⟨rest, by simp [hplan]⟩, fun hok => ?_, ?_, hlog, ?_⟩
      · cases hok
      · rw [hreserved, Reservations.add, h.reserved]
        simp
      · rw [List.map_append]
        refine List.append_subset.mpr ⟨?_, ?_⟩
        · exact List.subset_append_of_subset_left _ (hsubset h)
        · exact List.subset_append_of_subset_right _ hnew.subset

end Session

end CadTimeline
