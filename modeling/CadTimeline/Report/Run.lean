import CadTimeline.Compile.Emit
import CadTimeline.Report.Timeline

/-!
# Runs as documents

What compiling all timelines of a run produced, and its JSON form.
-/

namespace CadTimeline

structure RunReport where
  generatedAt : String
  outputRoot : Path
  files : List FileReport
deriving Repr

namespace RunReport

def totalWritten (report : RunReport) : Nat :=
  report.files.foldl (fun total file => total + file.written.length) 0

def totalChanged (report : RunReport) : Nat :=
  report.files.foldl (fun total file => total + file.changed) 0

end RunReport

def Written.document (written : Written) : Document :=
  .record
    [("path", .text written.path.text), ("file_type", .text written.kind.word),
      ("line", .ofNat written.line), ("status", .text written.status.word)]

def FileReport.document (report : FileReport) : Document :=
  .record
    [("file", .text report.file), ("written", .list (report.written.map Written.document)),
      ("echoes", .texts report.echoes), ("parameters", report.parameters.document)]

def RunReport.document (report : RunReport) : Document :=
  .record
    [("generated_at", .text report.generatedAt), ("output_dir", .text report.outputRoot.text),
      ("files", .list (report.files.map FileReport.document))]

end CadTimeline
