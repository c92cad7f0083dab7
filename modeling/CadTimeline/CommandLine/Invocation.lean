import CadTimeline.CommandLine.Switches
import CadTimeline.Output.Path
import CadTimeline.Unit

/-!
# Invocations

What a command line asks for: settings for the run, and a command or the files to
compile.
-/

namespace CadTimeline.CommandLine

inductive Command where
  | compile (inputs : List String)
  | parse (input : String) (output : Option String)
  | parameters (inputs : List String)
  | saveConfig (path : Path)
  | version
deriving DecidableEq, Repr

structure Invocation where
  command : Option Command := none
  inputs : List String := []
  outputRoot : Option Path := none
  config : Option Path := none
  unit : Option LengthUnit := none
  printParameters : Bool := false
  json : Bool := false
  verbose : Bool := false
deriving DecidableEq, Repr

/-- Why a command line is not carried out. -/
inductive Usage where
  | help
  | invalid
deriving DecidableEq, Repr

def commandNames : List String :=
  ["compile", "parse", "params", "init-config", "version", "help"]

def grammar : Grammar where
  switches :=
    [⟨"out-dir", some 'o', true⟩,
      ⟨"config", some 'c', true⟩,
      ⟨"units", none, true⟩,
      ⟨"print-parameters", some 'p', false⟩,
      ⟨"json", none, false⟩,
      ⟨"verbose", some 'v', false⟩]
  commands := commandNames

def commandGrammar (switches : List Switch) : Grammar :=
  ⟨switches, []⟩

def outputSwitch : Switch := ⟨"output", some 'o', true⟩

/-- The values on the command line of a command without switches of its own. -/
def values (words : List String) : Except Usage (List String) :=
  (events (commandGrammar []) .start words).mapM fun
    | .value text => .ok text
    | .help => .error .help
    | _ => .error .invalid

/-- At least one value. -/
def someValues (words : List String) : Except Usage (List String) := do
  match ← values words with
  | [] => throw .invalid
  | inputs => return inputs

/-- The input and the output of the `parse` command, as far as they are given. -/
def readParse (given : Option String × Option String) (event : Event) :
    Except Usage (Option String × Option String) :=
  match event, given with
  | .value text, (none, output) => .ok (some text, output)
  | .option _ text, (input, none) => .ok (input, some text)
  | .help, _ => .error .help
  | _, _ => .error .invalid

def parseCommand (words : List String) : Except Usage Command := do
  match ← (events (commandGrammar [outputSwitch]) .start words).foldlM readParse (none, none) with
  | (some input, output) => return .parse input output
  | (none, _) => throw .invalid

/-- A path that is not empty. -/
def pathOf (text : String) : Except Usage Path :=
  if text.isEmpty then .error .invalid else .ok ⟨text⟩

def saveCommand (words : List String) (standard : Path) : Except Usage Command := do
  match ← values words with
  | [] => return .saveConfig standard
  | [path] => return .saveConfig (← pathOf path)
  | _ => throw .invalid

def helpCommand (words : List String) : Except Usage Command :=
  match words with
  | [] => .error .help
  | [word] => .error (if commandNames.contains word then .help else .invalid)
  | _ => .error .invalid

/-- The command of this name with the words after it. -/
def readCommand (standard : Path) (name : String) (words : List String) : Except Usage Command := do
  match name with
  | "compile" => return .compile (← someValues words)
  | "parse" => parseCommand words
  | "params" => return .parameters (← someValues words)
  | "init-config" => saveCommand words standard
  | "version" =>
    match ← values words with
    | [] => return .version
    | _ => throw .invalid
  | _ => helpCommand words

/-- A setting that is given once. -/
def once {α : Type} (earlier : Option α) (value : Except Usage α) : Except Usage (Option α) :=
  if earlier.isSome then .error .invalid else value.map some

/-- A flag that is given once. -/
def raise (earlier : Bool) : Except Usage Bool :=
  if earlier then .error .invalid else .ok true

def unitOf (word : String) : Except Usage LengthUnit :=
  match LengthUnit.ofWord? word with
  | some unit => .ok unit
  | none => .error .invalid

/-- The invocation with what one more event says. -/
def Invocation.regard (standard : Path) (i : Invocation) : Event → Except Usage Invocation
  | .value text => return { i with inputs := i.inputs ++ [text] }
  | .option "out-dir" text => return { i with outputRoot := ← once i.outputRoot (pathOf text) }
  | .option "config" text => return { i with config := ← once i.config (pathOf text) }
  | .option "units" text => return { i with unit := ← once i.unit (unitOf text) }
  | .flag "print-parameters" => return { i with printParameters := ← raise i.printParameters }
  | .flag "json" => return { i with json := ← raise i.json }
  | .flag "verbose" => return { i with verbose := ← raise i.verbose }
  | .command name words => return { i with command := some (← readCommand standard name words) }
  | .help => throw .help
  | _ => throw .invalid

/-- The invocation that the words of a command line spell. A configuration is saved
to the standard path unless another is given. -/
def Invocation.ofWords (standard : Path) (words : List String) : Except Usage Invocation :=
  (events grammar .start words).foldlM (Invocation.regard standard) {}

end CadTimeline.CommandLine
