import CadTimeline.Output.Path
import CadTimeline.Store.Host
import CadTimeline.Toml.Document
import CadTimeline.Unit

/-!
# Configuration

Where files go, the unit that holds at the start of a timeline, and whether
parameters are printed. Settings come from a file, then from the environment.
-/

namespace CadTimeline

structure Config where
  outputRoot : Path
  unit : LengthUnit
  printParameters : Bool
deriving DecidableEq, Repr

namespace Config

def rootVariable : String := "TIMELINE360_OUTPUT_DIR"

def unitVariable : String := "TIMELINE360_UNITS"

def printVariable : String := "TIMELINE360_PRINT_PARAMETERS"

/-- The variables of the environment that hold settings. -/
def variableNames : List String :=
  [rootVariable, unitVariable, printVariable]

end Config

/-- Why a configuration cannot be read or saved. -/
inductive ConfigFault where
  | unreadable (path : Path) (fault : StoreFault)
  | malformed (path : Path)
  | unwritable (path : Path) (fault : StoreFault)
  | unknownUnit (word : String)
deriving Repr

namespace ConfigFault

def message : ConfigFault → String
  | unreadable path _ => "Failed to read config file: " ++ path.quoted
  | malformed path => "Failed to parse config file: " ++ path.quoted
  | unwritable path _ => "Failed to write config file: " ++ path.quoted
  | unknownUnit word => s!"{Config.unitVariable}: unknown unit `{word}`, expected mm, cm or m"

/-- The message with the cause behind it. -/
def fullMessage : ConfigFault → String
  | unreadable path fault => (unreadable path fault).message ++ ": " ++ fault.message
  | unwritable path fault => (unwritable path fault).message ++ ": " ++ fault.message
  | fault => fault.message

end ConfigFault

namespace Config

def standard : Config := ⟨⟨"."⟩, .mm, false⟩

/-- The file that is read when none is named. -/
def fileName : String := "timeline360.toml"

def readRoot (entries : Toml.Entries) : Option Path :=
  match entries.lookup "output_dir" with
  | none => some standard.outputRoot
  | some (.text s) => some ⟨s⟩
  | some _ => none

def readUnit (entries : Toml.Entries) : Option LengthUnit :=
  match entries.lookup "default_units" with
  | none => some standard.unit
  | some value => value.word?.bind LengthUnit.ofWord?

def readPrint (entries : Toml.Entries) : Option Bool :=
  match entries.lookup "print_parameters" with
  | none => some standard.printParameters
  | some (.boolean b) => some b
  | some _ => none

/-- The configuration that a file spells. Names it does not give have their
standard values, and others are ignored. -/
def ofText? (text : String) : Option Config := do
  let entries ← Toml.document? text
  return ⟨← readRoot entries, ← readUnit entries, ← readPrint entries⟩

/-- The file that spells a configuration. -/
def toText (config : Config) : String :=
  let root := String.ofList (Toml.write config.outputRoot.text.toList)
  let unit := String.ofList (Toml.write config.unit.word.toList)
  s!"output_dir = {root}\ndefault_units = {unit}\nprint_parameters = {config.printParameters}\n"

/-- The configuration after the variables of the environment are regarded. -/
def regard (env? : String → Option String) (config : Config) : Except ConfigFault Config := do
  let outputRoot := ((env? rootVariable).map Path.mk).getD config.outputRoot
  let unit ← match env? unitVariable with
    | none => pure config.unit
    | some word =>
      match LengthUnit.ofWord? word with
      | some unit => pure unit
      | none => throw (.unknownUnit word)
  let printParameters := match env? printVariable with
    | none => config.printParameters
    | some word => word == "true"
  return { outputRoot, unit, printParameters }

variable {m : Type → Type} [Monad m]

def ofFile (host : Host m) (path : Path) : m (Except ConfigFault Config) := do
  match ← host.readText path with
  | .error fault => return .error (.unreadable path fault)
  | .ok text =>
    match ofText? text with
    | some config => return .ok config
    | none => return .error (.malformed path)

/-- The configuration of a run. Without a path the standard file is read, if there
is one. -/
def load (host : Host m) (env? : String → Option String) (path : Option Path) :
    m (Except ConfigFault Config) := do
  let base ← match path with
    | some path => ofFile host path
    | none =>
      if ← host.isPresent ⟨fileName⟩ then ofFile host ⟨fileName⟩ else pure (.ok standard)
  return base.bind (regard env?)

def save (host : Host m) (config : Config) (path : Path) : m (Except ConfigFault Unit) := do
  return (← host.write path config.toText.toUTF8).mapError (ConfigFault.unwritable path)

end Config

end CadTimeline
