import CadTimeline.Store.Host
import Mathlib.Data.List.Basic
import Mathlib.Logic.Function.Basic

/-!
# A disk whose calls can fail

A file store that is a map from paths to contents, where paths with equal
components name the same file. Which of its calls fail is laid down in advance. A call
that fails changes nothing, except that a file that was being filled may hold the front
of its content. The disk remembers which files were made or emptied.
-/

namespace CadTimeline

/-- How a call fails. -/
structure Disk.Interruption where
  fault : StoreFault
  /-- If the call fills a file, how many bytes of the content are in it by then. With none
  of them there, this call changes nothing either. -/
  written : Nat

structure Disk where
  /-- The content of the file that a path with these components names. -/
  files : List Path.Component → Option ByteArray
  /-- The paths of the files that were made or emptied so far, the first one first. -/
  log : List Path
  /-- How the calls to come end. Those that the list does not reach succeed. -/
  faults : List (Option Disk.Interruption)

namespace Disk

/-- The disk with one call less to come. -/
def advance (disk : Disk) : Disk :=
  { disk with faults := disk.faults.tail }

/-- What stops the next call. -/
def due? (disk : Disk) : Option Interruption :=
  disk.faults.head?.join

/-- One call: it ends in the fault that is due, or does its work. -/
def call {α : Type} (work : Disk → Except StoreFault α × Disk) (disk : Disk) :
    Except StoreFault α × Disk :=
  match disk.due? with
  | some interruption => (.error interruption.fault, disk.advance)
  | none => work disk.advance

/-- The disk with this content at a path. -/
def hold (disk : Disk) (path : Path) (content : ByteArray) : Disk :=
  { disk with files := Function.update disk.files path.components (some content) }

/-- The disk with an empty file at a path, which counts as written. -/
def emptied (disk : Disk) (path : Path) : Disk :=
  { disk.hold path .empty with log := disk.log ++ [path] }

/-- What an interruption leaves of a content that was being written. -/
def Interruption.front (interruption : Interruption) (content : ByteArray) : ByteArray :=
  content.extract 0 interruption.written

def look (path : Path) (disk : Disk) : Except StoreFault ByteArray × Disk :=
  match disk.files path.components with
  | some content => (.ok content, disk)
  | none => (.error .notFound, disk)

def create (path : Path) : Disk → Except StoreFault Unit × Disk :=
  call fun disk => (.ok (), disk.emptied path)

def fill (path : Path) (content : ByteArray) (disk : Disk) : Except StoreFault Unit × Disk :=
  match disk.due? with
  | some interruption =>
    (.error interruption.fault, disk.advance.hold path (interruption.front content))
  | none => (.ok (), disk.advance.hold path content)

/-- Access to a disk. Directories hold nothing that a compiler reads, so only the
outcome of the calls about them matters. -/
def host : Host (StateM Disk) where
  read path := call (look path)
  create path := create path
  fill path content := fill path content
  makeDirectory _ := call fun disk => (.ok (), disk)
  isDirectory _ := fun disk =>
    let (outcome, disk) := call (fun disk => (.ok (), disk)) disk
    (outcome.isOk, disk)
  isPresent path := fun disk =>
    let (outcome, disk) := call (look path) disk
    (outcome.isOk, disk)

/-- No call to come fails. -/
def IsSound (disk : Disk) : Prop :=
  ∀ interruption, some interruption ∉ disk.faults

theorem mem_faults_of_due? {disk : Disk} {interruption : Interruption}
    (h : disk.due? = some interruption) : some interruption ∈ disk.faults := by
  rw [due?, Option.join_eq_some_iff] at h
  exact List.mem_of_mem_head? h

theorem IsSound.of_suffix {disk later : Disk} (hs : disk.IsSound)
    (h : later.faults <:+ disk.faults) : later.IsSound :=
  fun interruption hmem => hs interruption (h.subset hmem)

/-- The second disk has the files of the first, and no new faults ahead of it. -/
structure Keeps (disk later : Disk) : Prop where
  files : later.files = disk.files
  log : later.log = disk.log
  faults : later.faults <:+ disk.faults

namespace Keeps

theorem refl (disk : Disk) : Keeps disk disk :=
  ⟨rfl, rfl, List.suffix_rfl⟩

theorem trans {a b c : Disk} (hab : Keeps a b) (hbc : Keeps b c) : Keeps a c :=
  ⟨hbc.files.trans hab.files, hbc.log.trans hab.log, hbc.faults.trans hab.faults⟩

theorem isSound {disk later : Disk} (h : Keeps disk later) (hs : disk.IsSound) :
    later.IsSound :=
  hs.of_suffix h.faults

end Keeps

theorem keeps_advance (disk : Disk) : Keeps disk disk.advance :=
  ⟨rfl, rfl, List.tail_suffix _⟩

/-- A call fails without a trace, and only if a fault was due, or it does its work. -/
theorem call_cases {α : Type} (work : Disk → Except StoreFault α × Disk) (disk : Disk) :
    (¬ disk.IsSound ∧ ∃ fault, call work disk = (.error fault, disk.advance)) ∨
      call work disk = work disk.advance := by
  unfold call
  cases hdue : disk.due? with
  | some interruption =>
      exact .inl ⟨fun hs => hs interruption (mem_faults_of_due? hdue), interruption.fault, rfl⟩
  | none => exact .inr rfl

theorem keeps_look (path : Path) (disk : Disk) : Keeps disk (look path disk).2 := by
  unfold look
  split <;> exact Keeps.refl disk

theorem keeps_call {α : Type} {work : Disk → Except StoreFault α × Disk}
    (h : ∀ disk, Keeps disk (work disk).2) (disk : Disk) : Keeps disk (call work disk).2 := by
  rcases call_cases work disk with ⟨-, fault, hc⟩ | hc
  · rw [hc]
    exact keeps_advance disk
  · rw [hc]
    exact (keeps_advance disk).trans (h _)

theorem keeps_attempt (disk : Disk) :
    Keeps disk (call (fun disk => (Except.ok (), disk)) disk).2 :=
  keeps_call (fun disk => Keeps.refl disk) disk

theorem attempt_of_isSound {disk : Disk} (h : disk.IsSound) :
    call (fun disk => (Except.ok (), disk)) disk = (.ok (), disk.advance) := by
  rcases call_cases (fun disk => (Except.ok (), disk)) disk with ⟨hn, -⟩ | hc
  · exact absurd h hn
  · exact hc

/-! ## Programs that write no file -/

/-- Whatever the program does, the files stay as they are. -/
def Quiet {α : Type} (program : StateM Disk α) : Prop :=
  ∀ disk, Keeps disk (program disk).2

theorem Quiet.pure {α : Type} (a : α) : Quiet (Pure.pure a : StateM Disk α) :=
  fun disk => Keeps.refl disk

theorem Quiet.bind {α β : Type} {program : StateM Disk α} {rest : α → StateM Disk β}
    (h : Quiet program) (hrest : ∀ a, Quiet (rest a)) : Quiet (program >>= rest) :=
  fun disk => (h disk).trans (hrest _ _)

theorem quiet_ensureDirectory (path : Path) : Quiet (host.ensureDirectory path) := by
  refine Quiet.bind keeps_attempt fun outcome => ?_
  cases outcome with
  | ok _ => exact Quiet.pure _
  | error fault => exact Quiet.bind keeps_attempt fun _ => Quiet.pure _

theorem quiet_makeDirectoriesWithin (path : Path) (depth : Nat) :
    Quiet (host.makeDirectoriesWithin path depth) := by
  induction depth generalizing path with
  | zero => exact Quiet.pure _
  | succ depth ih =>
      unfold Host.makeDirectoriesWithin
      split
      · exact Quiet.pure _
      · refine Quiet.bind (quiet_ensureDirectory path) fun outcome => ?_
        split
        · split
          · exact Quiet.pure _
          · refine Quiet.bind (ih _) fun above => ?_
            cases above with
            | ok _ => exact quiet_ensureDirectory path
            | error fault => exact Quiet.pure _
        · exact Quiet.pure _

theorem quiet_makeDirectories (path : Path) : Quiet (host.makeDirectories path) :=
  quiet_makeDirectoriesWithin path _

theorem ensureDirectory_of_isSound {disk : Disk} (h : disk.IsSound) (path : Path) :
    host.ensureDirectory path disk = (.ok (), disk.advance) := by
  simp only [Host.ensureDirectory, host, bind, StateT.bind]
  rw [attempt_of_isSound h]
  rfl

theorem makeDirectories_of_isSound {disk : Disk} (h : disk.IsSound) (path : Path) :
    (host.makeDirectories path disk).1 = .ok () := by
  simp only [Host.makeDirectories, Host.makeDirectoriesWithin]
  split
  · rfl
  · simp only [bind, StateT.bind]
    rw [ensureDirectory_of_isSound h]
    rfl

/-! ## Giving a file its content -/

/-- What a status says about the file before it was written. -/
def Explains (disk : Disk) (path : Path) (content : ByteArray) : WriteStatus → Prop
  | .created => disk.files path.components = none ∨ ¬ disk.IsSound
  | .updated => ∃ old, disk.files path.components = some old ∧ old ≠ content
  | .unchanged => disk.files path.components = some content

/-- The disk after a file was given this content, with its status. -/
structure Filled (disk : Disk) (path : Path) (content : ByteArray) (status : WriteStatus)
    (later : Disk) : Prop where
  files : later.files = Function.update disk.files path.components (some content)
  log : later.log = disk.log ++ if status = .unchanged then [] else [path]
  faults : later.faults <:+ disk.faults
  explains : disk.Explains path content status

/-- At most the path itself is logged. -/
theorem Filled.exists_log {disk later : Disk} {path : Path} {content : ByteArray}
    {status : WriteStatus} (h : Filled disk path content status later) :
    ∃ new, later.log = disk.log ++ new ∧ new.Sublist [path] := by
  refine ⟨_, h.log, ?_⟩
  split
  · exact List.nil_sublist _
  · exact List.Sublist.refl _

theorem Explains.of_keeps {disk later : Disk} {path : Path} {content : ByteArray}
    {status : WriteStatus} (hk : Keeps disk later) (h : later.Explains path content status) :
    disk.Explains path content status := by
  cases status with
  | created => exact h.imp (fun hf => hk.files ▸ hf) fun hn hs => hn (hk.isSound hs)
  | updated =>
      obtain ⟨old, hold, hne⟩ := h
      exact ⟨old, hk.files ▸ hold, hne⟩
  | unchanged =>
      have hold : later.files path.components = some content := h
      rw [hk.files] at hold
      exact hold

theorem contents_beq_iff {a b : ByteArray} : (a == b) = true ↔ a = b := by
  have hdata : (a == b) = (a.data == b.data) := rfl
  rw [hdata, beq_iff_eq, ByteArray.ext_iff]

/-- What was found at a path decides the status. -/
theorem explains_read (disk : Disk) (path : Path) (content : ByteArray) :
    disk.Explains path content (Host.status (host.read path disk).1 content) := by
  simp only [host]
  rcases call_cases (look path) disk with ⟨hn, fault, hc⟩ | hc
  · rw [hc]
    exact .inr hn
  · rw [hc]
    unfold look
    split
    · rename_i old hold
      by_cases h : old = content
      · rw [Host.status, if_pos (contents_beq_iff.mpr h)]
        exact h ▸ hold
      · rw [Host.status, if_neg (mt contents_beq_iff.mp h)]
        exact ⟨old, hold, h⟩
    · rename_i hnone
      exact .inl hnone

/-- The path that a fault is about when a file cannot be written: its own or the
directory's that should hold it. -/
def IsCulprit (path place : Path) : Prop :=
  place = path ∨ path.parent? = some place

/-- The disk after giving a file this content has failed. -/
inductive Broken (disk : Disk) (path : Path) (content : ByteArray) :
    Path × StoreFault → Disk → Prop
  /-- Before the file was touched. -/
  | early {place : Path} {fault : StoreFault} {later : Disk} (hunsound : ¬ disk.IsSound)
      (hplace : IsCulprit path place) (hkeep : Keeps disk later) :
      Broken disk path content (place, fault) later
  /-- With the file emptied. It holds the front of the content up to the interruption. -/
  | midway {interruption : Interruption} {later : Disk}
      (hdue : some interruption ∈ disk.faults)
      (hfiles : later.files =
        Function.update disk.files path.components (some (interruption.front content)))
      (hlog : later.log = disk.log ++ [path]) (hfaults : later.faults <:+ disk.faults) :
      Broken disk path content (path, interruption.fault) later

namespace Broken

variable {disk later : Disk} {path : Path} {content : ByteArray} {blame : Path × StoreFault}

theorem not_isSound (h : Broken disk path content blame later) : ¬ disk.IsSound := by
  cases h with
  | early hunsound _ _ => exact hunsound
  | midway hdue _ _ _ => exact fun hs => hs _ hdue

/-- At most the path itself is logged. -/
theorem exists_log (h : Broken disk path content blame later) :
    ∃ new, later.log = disk.log ++ new ∧ new.Sublist [path] := by
  cases h with
  | early _ _ hkeep => exact ⟨[], by rw [hkeep.log, List.append_nil], List.nil_sublist _⟩
  | midway _ _ hlog _ => exact ⟨[path], hlog, List.Sublist.refl _⟩

theorem of_keeps {first : Disk} (hk : Keeps first disk)
    (h : Broken disk path content blame later) : Broken first path content blame later := by
  cases h with
  | early hunsound hplace hkeep =>
      exact .early (fun hs => hunsound (hk.isSound hs)) hplace (hk.trans hkeep)
  | midway hdue hfiles hlog hfaults =>
      rw [hk.files] at hfiles
      rw [hk.log] at hlog
      exact .midway (hk.faults.subset hdue) hfiles hlog (hfaults.trans hk.faults)

end Broken

/-- Either the file has the content in the end, or a call has failed. -/
inductive Ends (disk : Disk) (path : Path) (content : ByteArray) :
    Except (Path × StoreFault) WriteStatus → Disk → Prop
  | filled {status : WriteStatus} {later : Disk} (h : Filled disk path content status later) :
      Ends disk path content (.ok status) later
  | broken {blame : Path × StoreFault} {later : Disk}
      (h : Broken disk path content blame later) : Ends disk path content (.error blame) later

theorem Filled.of_keeps {first disk later : Disk} {path : Path} {content : ByteArray}
    {status : WriteStatus} (hk : Keeps first disk) (h : Filled disk path content status later) :
    Filled first path content status later where
  files := by rw [h.files, hk.files]
  log := by rw [h.log, hk.log]
  faults := h.faults.trans hk.faults
  explains := h.explains.of_keeps hk

theorem Ends.of_keeps {first disk later : Disk} {path : Path} {content : ByteArray}
    {outcome : Except (Path × StoreFault) WriteStatus} (hk : Keeps first disk)
    (h : Ends disk path content outcome later) : Ends first path content outcome later := by
  cases h with
  | filled h => exact .filled (h.of_keeps hk)
  | broken h => exact .broken (h.of_keeps hk)

/-- Writing a file empties it and then fills it. -/
theorem write_eq (path : Path) (content : ByteArray) (disk : Disk) :
    host.write path content disk =
      match create path disk with
      | (.error fault, later) => (.error fault, later)
      | (.ok _, made) => fill path content made := by
  simp only [Host.write, bind, StateT.bind, host]
  generalize create path disk = result
  rcases result with ⟨fault | _, later⟩ <;> rfl

/-- What an emptied file held before does not matter. -/
theorem files_hold_emptied (disk : Disk) (path : Path) (content : ByteArray) :
    ((disk.emptied path).hold path content).files =
      Function.update disk.files path.components (some content) :=
  Function.update_idem ..

theorem write_cases (path : Path) (content : ByteArray) (disk : Disk) :
    (∃ later, host.write path content disk = (.ok (), later) ∧
      later.files = Function.update disk.files path.components (some content) ∧
      later.log = disk.log ++ [path] ∧ later.faults <:+ disk.faults) ∨
    ∃ fault later, host.write path content disk = (.error fault, later) ∧
      Broken disk path content (path, fault) later := by
  rw [write_eq, create]
  rcases call_cases (fun disk => (Except.ok (), disk.emptied path)) disk with ⟨hn, fault, hc⟩ | hc
  · rw [hc]
    exact .inr ⟨fault, _, rfl, .early hn (.inl rfl) (keeps_advance disk)⟩
  · rw [hc]
    have hfiles := files_hold_emptied disk path
    have hfaults : disk.faults.tail.tail <:+ disk.faults :=
      (List.tail_suffix _).trans (List.tail_suffix _)
    unfold fill
    dsimp only
    split
    · rename_i interruption hdue
      have hmem := (List.tail_suffix disk.faults).subset (mem_faults_of_due? hdue)
      exact .inr ⟨interruption.fault, _, rfl, .midway hmem (hfiles _) rfl hfaults⟩
    · exact .inl ⟨_, rfl, hfiles content, rfl, hfaults⟩

/-- Writing the content that a status asks for. -/
def settle (path : Path) (content : ByteArray) (status : WriteStatus) :
    StateM Disk (Except (Path × StoreFault) WriteStatus) := do
  if status = .unchanged then return .ok status
  else return ((← host.write path content).map fun _ => status).mapError (path, ·)

/-- A status found on the disk decides how writing ends, with calls in between that
keep the files. -/
theorem settle_ends {disk found : Disk} {path : Path} {content : ByteArray}
    {status : WriteStatus} (hk : Keeps disk found) (h : disk.Explains path content status) :
    Ends disk path content (settle path content status found).1
      (settle path content status found).2 := by
  by_cases hu : status = .unchanged
  · subst hu
    have hsame : found.files = Function.update disk.files path.components (some content) := by
      rw [hk.files]
      exact (Function.update_eq_self_iff.mpr (Eq.symm h)).symm
    have hlog : found.log = disk.log ++ [] := by rw [hk.log, List.append_nil]
    exact .filled ⟨hsame, hlog, hk.faults, h⟩
  · have hs : settle path content status found =
        let (outcome, later) := host.write path content found
        ((outcome.map fun _ => status).mapError (path, ·), later) := by
      simp only [settle, if_neg hu]
      rfl
    rw [hs]
    rcases write_cases path content found with ⟨later, hw, hfiles, hlog, hfaults⟩ |
      ⟨fault, later, hw, hbroken⟩
    · rw [hw]
      refine .filled ⟨?_, ?_, hfaults.trans hk.faults, h⟩
      · rw [hfiles, hk.files]
      · rw [hlog, hk.log, if_neg hu]
    · rw [hw]
      exact .broken (hbroken.of_keeps hk)

/-- Giving a file its content once the directory above it is there. -/
def overwrite (path : Path) (content : ByteArray) :
    StateM Disk (Except (Path × StoreFault) WriteStatus) := do
  settle path content (Host.status (← host.read path) content)

theorem overwrite_ends (disk : Disk) (path : Path) (content : ByteArray) :
    Ends disk path content (overwrite path content disk).1 (overwrite path content disk).2 := by
  have hread : Keeps disk (host.read path disk).2 := keeps_call (keeps_look path) disk
  exact settle_ends hread (explains_read disk path content)

theorem put_ends (disk : Disk) (path : Path) (text : String) :
    Ends disk path text.toUTF8 (host.put path text disk).1 (host.put path text disk).2 := by
  cases hp : path.parent? with
  | none =>
      have hput : host.put path text = overwrite path text.toUTF8 := by
        simp only [Host.put, hp]
        rfl
      rw [hput]
      exact overwrite_ends disk path text.toUTF8
  | some parent =>
      have hmade := quiet_makeDirectories parent disk
      have hsound : disk.IsSound → _ := fun h => makeDirectories_of_isSound h parent
      simp only [Host.put, hp, bind, StateT.bind]
      generalize host.makeDirectories parent disk = result at hmade hsound
      obtain ⟨outcome, made⟩ := result
      cases outcome with
      | error fault =>
          refine .broken (.early (fun hs => ?_) (.inr hp) hmade)
          have := hsound hs
          contradiction
      | ok _ => exact (overwrite_ends made path text.toUTF8).of_keeps hmade

end Disk

end CadTimeline
