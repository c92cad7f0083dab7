import CadTimeline.Compile.Reservations
import CadTimeline.Compile.Output
import CadTimeline.Store.Host

/-!
# Writing the outputs

The outputs of a timeline are written one after the other, each after its path is
reserved, up to the first that fails. What was reserved and written before stays.
-/

namespace CadTimeline

/-- An output that has been written. -/
structure Written where
  path : Path
  kind : ActionKind
  line : Nat
  status : WriteStatus
deriving Repr

/-- What compiling one timeline file produced. -/
structure FileReport where
  file : String
  written : List Written
  echoes : List String
  parameters : ParameterTable
deriving Repr

/-- The number of files that were not left as they were. -/
def FileReport.changed (report : FileReport) : Nat :=
  report.written.countP fun written => written.status ≠ .unchanged

/-- Writes a text to a path. A fault comes with the path it is about. -/
abbrev Put (m : Type → Type) := Path → String → m (Except (Path × StoreFault) WriteStatus)

variable {m : Type → Type} [Monad m]

/-- How far the writing of a timeline has come. -/
structure Progress where
  reserved : Reservations
  written : List Written
deriving Repr

/-- A stretch of writing. What it reserved and wrote stays when it fails. -/
abbrev Writing (m : Type → Type) := ExceptT Failure (StateT Progress m)

/-- Goes on after the writing of an output has ended. -/
def noteOutput (output : Output) (outcome : Except (Path × StoreFault) WriteStatus) :
    Writing m Unit :=
  match outcome with
  | .error (path, fault) => throw (.store path fault)
  | .ok status =>
    let file : Written := ⟨output.path, output.kind, output.line, status⟩
    modify fun progress => { progress with written := progress.written ++ [file] }

/-- Reserves the path of an output and writes its text there. -/
def writeOutput (put : Put m) (output : Output) : Writing m Unit := do
  let progress ← get
  match progress.reserved.reserve output.path output.producer with
  | .error failure => throw failure
  | .ok reserved =>
    set { progress with reserved }
    noteOutput output (← put output.path output.text)

namespace Analysis

/-- Writes the file of an action and the co rails of its segments. -/
def writeAction (analysis : Analysis) (put : Put m) (root : Path) (action : Action) :
    Writing m Unit := do
  let output := analysis.actionOutput root action
  match (Keyword.action action.kind).findSchema with
  | .error issue => throw (.complaint ⟨output.producer, issue⟩)
  | .ok schema =>
    writeOutput put { output with text := action.fileBy schema }
    (action.coRails root).forM fun rail => writeOutput put (analysis.railOutput action.line rail)

def writeCrossRails (analysis : Analysis) (put : Put m) (root : Path)
    (rails : CrossRails × LengthUnit) : Writing m Unit :=
  (rails.1.sketches analysis.sketches root rails.2).forM fun rail =>
    writeOutput put (analysis.railOutput rails.1.line rail)

/-- Writes the files of a timeline, up to the first that fails. -/
def write (analysis : Analysis) (put : Put m) (root : Path) : Writing m Unit := do
  analysis.actions.forM (analysis.writeAction put root)
  analysis.crossRails.forM (analysis.writeCrossRails put root)

end Analysis

/-- Reads a source as a whole, then writes its files. -/
def compileSource (put : Put m) (root : Path) (unit : LengthUnit) (reserved : Reservations)
    (file source : String) : m (Reservations × Except Failure FileReport) := do
  match Analysis.ofSource file source unit with
  | .error complaint => return (reserved, .error (.complaint complaint))
  | .ok analysis =>
    let (outcome, progress) ← (analysis.write put root).run.run ⟨reserved, []⟩
    return (progress.reserved, outcome.map fun _ =>
      ⟨file, progress.written, analysis.echoes, analysis.parameters⟩)

def compileFile (host : Host m) (root : Path) (unit : LengthUnit) (reserved : Reservations)
    (path : Path) : m (Reservations × Except Failure FileReport) := do
  match ← host.readText path with
  | .error fault => return (reserved, .error (.store path fault))
  | .ok source => compileSource host.put root unit reserved path.text source

/-- Compiles files in order, up to the first that fails. -/
def compileFiles (host : Host m) (root : Path) (unit : LengthUnit) (reserved : Reservations) :
    List Path → m (Reservations × Except Failure (List FileReport))
  | [] => return (reserved, .ok [])
  | path :: rest => do
    match ← compileFile host root unit reserved path with
    | (reserved, .error failure) => return (reserved, .error failure)
    | (reserved, .ok report) =>
      let (reserved, reports) ← compileFiles host root unit reserved rest
      return (reserved, reports.map (report :: ·))

end CadTimeline
