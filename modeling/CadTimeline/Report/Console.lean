import CadTimeline.Decimal.Plain
import CadTimeline.Report.Run
import CadTimeline.Report.Style

/-!
# Console reports

The lines in which a run is reported to a person. `colored` says whether they may
be styled.
-/

namespace CadTimeline.Console

open Style

def rule (c : Char) (colored : Bool) : String :=
  brightBlack.paint colored (String.ofList (List.replicate 80 c))

/-- A labelled value. -/
def entry (colored : Bool) (style : Style) (label value : String) : String :=
  "  " ++ brightBlack.paint colored label ++ " " ++ style.paint colored value

def padLeft (width : Nat) (text : String) : String :=
  String.ofList (List.replicate (width - text.length) ' ') ++ text

def padRight (width : Nat) (text : String) : String :=
  text ++ String.ofList (List.replicate (width - text.length) ' ')

def statusStyle : WriteStatus → Style
  | .created => .green
  | .updated => .yellow
  | .unchanged => .brightBlack

def written (colored : Bool) (file : Written) : String :=
  let status := (statusStyle file.status).paint colored (padLeft 9 file.status.word)
  let line := brightBlack.paint colored s!"(line {file.line})"
  s!"    {status} {file.path.text} {line}"

/-- The files and echoes of one timeline. -/
def file (colored verbose : Bool) (report : FileReport) : List String :=
  let count := cyan.paint colored (toString report.written.length)
  ["", rule '━' colored,
    bold.paint colored "Timeline:" ++ " " ++ cyan.paint colored report.file,
    rule '━' colored] ++
  report.echoes.map (fun message => "  " ++ brightBlue.paint colored "echo" ++ " " ++ message) ++
  ["  " ++ brightBlack.paint colored "Files:" ++ s!" {count} ({report.changed} changed)"] ++
  (if verbose then report.written.map (written colored) else [])

def parameter (colored : Bool) (width : Nat) (p : Parameter) : String :=
  let value := cyan.paint colored (Number.plain p.value)
  let expression := brightBlack.paint colored s!"({p.expression})"
  "  " ++ padRight width p.name ++ s!" = {value} {expression}"

/-- The parameters of one timeline in the order of their definitions. -/
def parameters (colored : Bool) (file : String) (table : ParameterTable) : List String :=
  let width := (table.entries.map fun p => p.name.utf8ByteSize).foldl max 0
  ["", bold.paint colored "Parameters:" ++ " " ++ cyan.paint colored file] ++
    if table.entries.isEmpty then ["  " ++ brightBlack.paint colored "(none)"]
    else table.entries.map (parameter colored width)

/-- A number of hundredths with two places. -/
def hundredths (n : Nat) : String :=
  let places := String.ofList ((toString (n % 100 + 100)).toList.drop 1)
  s!"{n / 100}.{places}"

/-- A duration in the unit that suits it. -/
def duration (microseconds : Nat) : String :=
  if microseconds < 1000 then s!"{microseconds}µs"
  else if microseconds < 1000000 then hundredths (Binary64.roundHalfEven microseconds 10) ++ "ms"
  else hundredths (Binary64.roundHalfEven microseconds 10000) ++ "s"

/-- The totals of a run. -/
def summary (colored : Bool) (report : RunReport) (microseconds : Nat) : List String :=
  ["", rule '═' colored, bold.paint colored "Compile Summary", rule '═' colored,
    entry colored .cyan "Timelines:" (toString report.files.length),
    entry colored .cyan "CSV files:" (toString report.totalWritten),
    entry colored .yellow "Changed:" (toString report.totalChanged),
    entry colored .cyan "Output:" report.outputRoot.text,
    entry colored .yellow "Time:" (duration microseconds),
    rule '═' colored]

def failure (colored : Bool) (kind message : String) : List String :=
  ["", boldRed.paint colored s!"❌ {kind}:" ++ " " ++ message]

def warning (colored : Bool) (message : String) : List String :=
  ["", boldYellow.paint colored "⚠️  Warning:" ++ " " ++ message]

def note (colored : Bool) (message : String) : List String :=
  [brightBlue.paint colored "ℹ️" ++ " " ++ message]

def success (colored : Bool) (message : String) : List String :=
  [green.paint colored "✅" ++ " " ++ green.paint colored message]

end CadTimeline.Console
