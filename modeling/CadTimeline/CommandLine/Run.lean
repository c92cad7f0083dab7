import CadTimeline.CommandLine.Invocation
import CadTimeline.Config.Basic
import CadTimeline.Report.Console
import CadTimeline.Report.Timestamp

/-!
# Carrying out an invocation

What the program does with a command line: the files it writes, the lines it
prints and its exit code. Files, the environment and the time are reached through
an arbitrary monad.
-/

namespace CadTimeline.CommandLine

/-- The lines that a run prints, and its exit code. -/
structure Outcome where
  printed : List String := []
  reported : List String := []
  code : Nat := 0
deriving DecidableEq, Repr

/-- What a run can reach. -/
structure World (m : Type → Type) where
  host : Host m
  /-- Nanoseconds since the start of 1970. -/
  now : m Nat
  env? : String → Option String

namespace Outcome

/-- The lines come before those of another outcome. -/
def after (lines : List String) (outcome : Outcome) : Outcome :=
  { outcome with printed := lines ++ outcome.printed }

end Outcome

/-- The file names in arguments that may hold several, separated by commas. -/
def splitInputs (words : List String) : List String :=
  let pieces := words.flatMap fun word => (word.toList.splitOn ',').map Text.trim
  (pieces.filter (· ≠ [])).map String.ofList

def colorVariable : String := "CLICOLOR_FORCE"

/-- The variables of the environment that a run asks for. -/
def variableNames : List String :=
  colorVariable :: Config.variableNames

/-- Colours are on if the environment forces them; output is never taken for a
terminal. -/
def isColored (env? : String → Option String) : Bool :=
  (env? colorVariable).any (· != "0")

variable {m : Type → Type} [Monad m]

namespace World

def colored (world : World m) : Bool :=
  isColored world.env?

def failed (world : World m) (failure : Failure) : Outcome :=
  { reported := Console.failure world.colored failure.kind failure.message, code := 1 }

def stopped (world : World m) (message : String) : Outcome :=
  { reported := Console.failure world.colored "Error" message, code := 1 }

/-- The first input that is not there. -/
def missing? (world : World m) : List String → m (Option String)
  | [] => return none
  | file :: files => do
    if ← world.host.isPresent ⟨file⟩ then world.missing? files else return some file

/-- The lines about one compiled file. -/
def fileLines (world : World m) (config : Config) (verbose : Bool) (report : FileReport) :
    List String :=
  Console.file world.colored verbose report ++
    (if report.written.isEmpty then
      Console.warning world.colored s!"{report.file} produced no CSV files"
    else []) ++
    (if config.printParameters then
      Console.parameters world.colored report.file report.parameters
    else [])

def runLines (world : World m) (config : Config) (verbose : Bool) (report : RunReport)
    (microseconds : Nat) : List String :=
  report.files.flatMap (world.fileLines config verbose) ++
    Console.summary world.colored report microseconds ++
    Console.success world.colored
      s!"Compiled {report.files.length} timeline(s) into {report.totalWritten} CSV file(s)"

def compile (world : World m) (config : Config) (json verbose : Bool) (inputs : List String) :
    m Outcome := do
  let files := splitInputs inputs
  match ← world.missing? files with
  | some file => return world.stopped s!"Input file not found: {file}"
  | none =>
    let start ← world.now
    let (_, result) ←
      compileFiles world.host config.outputRoot config.unit .empty (files.map Path.mk)
    let finish ← world.now
    match result with
    | .error failure => return world.failed failure
    | .ok files =>
      let report : RunReport := ⟨Timestamp.render finish, config.outputRoot, files⟩
      if json then return { printed := [report.document.render] }
      else return { printed := world.runLines config verbose report ((finish - start) / 1000) }

/-- Reads a timeline file without writing its outputs. -/
def analyze (world : World m) (config : Config) (file : String) :
    m (Except Failure Analysis) := do
  match ← world.host.readText ⟨file⟩ with
  | .error fault => return .error (.store ⟨file⟩ fault)
  | .ok source => return (Analysis.ofSource file source config.unit).mapError .complaint

def parse (world : World m) (config : Config) (verbose : Bool) (input : String)
    (output : Option String) : m Outcome := do
  let note (message : String) := if verbose then Console.note world.colored message else []
  let begun := note s!"Parsing: {input}"
  match ← world.analyze config input with
  | .error failure => return (world.failed failure).after begun
  | .ok analysis =>
    let text := analysis.document.render
    match output with
    | none => return { printed := begun ++ [text] }
    | some file =>
      match ← world.host.write ⟨file⟩ text.toUTF8 with
      | .error fault =>
        let cause := fault.message
        return (world.stopped s!"Failed to write {file}: {cause}").after begun
      | .ok _ => return { printed := begun ++ note s!"Actions written to: {file}" }

/-- Prints the parameters of every file, up to the first that cannot be read. -/
def parameters (world : World m) (config : Config) : List String → m Outcome
  | [] => return {}
  | file :: files => do
    match ← world.analyze config file with
    | .error failure => return world.failed failure
    | .ok analysis =>
      let rest ← world.parameters config files
      return rest.after (Console.parameters world.colored file analysis.parameters)

def saveConfig (world : World m) (config : Config) (path : Path) : m Outcome := do
  match ← config.save world.host path with
  | .error fault => return world.stopped fault.fullMessage
  | .ok _ =>
    return { printed :=
      Console.success world.colored s!"Configuration written to {path.text}" }

/-- The configuration with the settings of the command line. -/
def settings (config : Config) (i : Invocation) : Config where
  outputRoot := i.outputRoot.getD config.outputRoot
  unit := i.unit.getD config.unit
  printParameters := config.printParameters || i.printParameters

def usage : List String :=
  ["Error: at least one timeline file is required",
    "Usage: timeline360 <FILES>... [--out-dir <DIR>]"]

def perform (world : World m) (i : Invocation) : m Outcome := do
  match ← Config.load world.host world.env? i.config with
  | .error fault => return world.stopped fault.fullMessage
  | .ok config =>
    let config := settings config i
    match i.command with
    | some (.compile inputs) => world.compile config i.json i.verbose inputs
    | some (.parse input output) => world.parse config i.verbose input output
    | some (.parameters inputs) => world.parameters config (splitInputs inputs)
    | some (.saveConfig path) => world.saveConfig config path
    | some .version => return { printed := ["Timeline360 v0.1.0"] }
    | none =>
      if i.inputs.isEmpty then return { reported := usage, code := 1 }
      else world.compile config i.json i.verbose i.inputs

def help : List String :=
  ["Compile CAD timeline files into per-action CSV files", "",
    "Usage: timeline360 [OPTIONS] [FILES]... [COMMAND]"]

/-- Carries out the command line made up of these words. -/
def run (world : World m) (words : List String) : m Outcome :=
  match Invocation.ofWords ⟨Config.fileName⟩ words with
  | .ok invocation => world.perform invocation
  | .error .help => return { printed := help }
  | .error .invalid => return { reported := help, code := 2 }

end World

end CadTimeline.CommandLine
