/-!
# Switches and values

How the words of a command line are told apart. A word that starts with a dash
names switches, and `--` makes all words after it values. A command is recognised
by its name wherever no run of values is under way.
-/

namespace CadTimeline.CommandLine

/-- A switch, known by a long name and perhaps by a letter. -/
structure Switch where
  long : String
  short : Option Char
  takesValue : Bool
deriving DecidableEq, Repr

/-- What a command line may hold. -/
structure Grammar where
  switches : List Switch
  commands : List String

/-- What a word says. -/
inductive Event where
  | flag (name : String)
  | option (name value : String)
  | value (text : String)
  /-- A command with the words after it, which are its own. -/
  | command (name : String) (rest : List String)
  | help
  | invalid
deriving DecidableEq, Repr

/-- What the words before say about the next one. -/
inductive Mode where
  | start
  | values
  | literal
deriving DecidableEq, Repr

/-- The events of a word, and the switch that takes the next word as its value. -/
abbrev Reading := List Event × Option Switch

/-- A switch by its long name, perhaps with its value behind an equals sign. -/
def readLong (grammar : Grammar) (name : List Char) : Reading :=
  let long := String.ofList (name.takeWhile (· != '='))
  let attached := match name.dropWhile (· != '=') with
    | [] => none
    | _ :: value => some (String.ofList value)
  match grammar.switches.find? (·.long == long), attached with
  | none, none => if long = "help" then ([.help], none) else ([.invalid], none)
  | none, some _ => ([.invalid], none)
  | some switch, none => if switch.takesValue then ([], some switch) else ([.flag long], none)
  | some switch, some value =>
    if switch.takesValue then ([.option long value], none) else ([.invalid], none)

/-- Switches by their letters. What follows the letter of one that takes a value
is its value, perhaps behind an equals sign. -/
def readShort (grammar : Grammar) : List Char → Reading
  | [] => ([], none)
  | c :: cs =>
    match grammar.switches.find? (·.short == some c) with
    | none => if c = 'h' then ([.help], none) else ([.invalid], none)
    | some switch =>
      if switch.takesValue then
        match cs with
        | [] => ([], some switch)
        | '=' :: value => ([.option switch.long (String.ofList value)], none)
        | value => ([.option switch.long (String.ofList value)], none)
      else
        let (events, awaiting) := readShort grammar cs
        (.flag switch.long :: events, awaiting)

/-- The switches in a word, if it is not a value. A lone dash is one. -/
def readWord? (grammar : Grammar) (word : List Char) : Option Reading :=
  match word with
  | '-' :: '-' :: name => some (readLong grammar name)
  | ['-'] => none
  | '-' :: letters => some (readShort grammar letters)
  | _ => none

def isSwitch (word : List Char) : Bool :=
  match word with
  | '-' :: _ :: _ => true
  | _ => false

/-- What the words of a command line say, in order. -/
def events (grammar : Grammar) : Mode → List String → List Event
  | _, [] => []
  | .literal, word :: rest => .value word :: events grammar .literal rest
  | mode, word :: rest =>
    if mode ≠ .values ∧ grammar.commands.contains word then [.command word rest]
    else if word = "--" then events grammar .literal rest
    else
      match readWord? grammar word.toList with
      | none => .value word :: events grammar .values rest
      | some (found, none) => found ++ events grammar .start rest
      | some (found, some switch) =>
        match rest with
        | [] => found ++ [.invalid]
        | value :: rest =>
          if isSwitch value.toList then found ++ [.invalid]
          else found ++ .option switch.long value :: events grammar .start rest

end CadTimeline.CommandLine
