import CadTimeline.CommandLine.Run
import Std.Time.DateTime.Timestamp

/-!
# The program

A run on the files, the clock and the environment of the process.
-/

namespace CadTimeline.Program

/-- The fault of an error by its number in the operating system. -/
def faultOf (code : UInt32) (details : String) : StoreFault :=
  match code.toNat with
  | 2 => .notFound
  | 17 => .alreadyExists
  | 20 => .notDirectory
  | 21 => .isDirectory
  | 36 => .nameTooLong
  | number => .other s!"{details} (os error {number})"

def fault : IO.Error → StoreFault
  | .noFileOrDirectory _ code details => faultOf code details
  | .alreadyExists _ code details => faultOf code details
  | .inappropriateType _ code details => faultOf code details
  | .invalidArgument _ code details => faultOf code details
  | .permissionDenied _ code details => faultOf code details
  | .resourceExhausted _ code details => faultOf code details
  | error => .other (toString error)

/-- What an action on files gives, with its error as a fault. -/
def guarded {α : Type} (action : IO α) : IO (Except StoreFault α) := do
  try return .ok (← action) catch error => return .error (fault error)

def host : Host IO where
  read path := guarded do (← IO.FS.Handle.mk path.text .read).readBinToEnd
  create path := guarded (discard (IO.FS.Handle.mk path.text .write))
  fill path content := guarded do (← IO.FS.Handle.mk path.text .append).write content
  makeDirectory path := guarded (IO.FS.createDir path.text)
  isDirectory path := do
    if path.text.isEmpty then return false
    ((← IO.currentDir) / path.text).isDir
  isPresent path := do
    if path.text.isEmpty then return false
    ((← IO.currentDir) / path.text).pathExists

def now : IO Nat := do
  return (← Std.Time.Timestamp.now).toNanosecondsSinceUnixEpoch.val.toNat

/-- The given variables of the environment, as far as they are set. -/
def environment : List String → IO (List (String × String))
  | [] => return []
  | name :: names => do
    let rest ← environment names
    match ← IO.getEnv name with
    | some value => return (name, value) :: rest
    | none => return rest

end CadTimeline.Program

open CadTimeline in
def main (words : List String) : IO UInt32 := do
  let environment ← Program.environment CommandLine.variableNames
  let world : CommandLine.World IO := ⟨Program.host, Program.now, (environment.lookup ·)⟩
  let outcome ← world.run words
  outcome.printed.forM IO.println
  outcome.reported.forM IO.eprintln
  return outcome.code.toUInt32
