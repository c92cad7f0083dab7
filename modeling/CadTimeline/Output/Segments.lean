import CadTimeline.Issue

/-!
# Folder paths in headers

A folder or component path in a block header is split at `/` into segments that
stay below the output root: it may not be absolute, step upwards or have an empty
segment. `.` segments are dropped.
-/

namespace CadTimeline.Segments

open Text

/-- Whether the path looks absolute on any system. -/
def looksAbsolute : List Char → Bool
  | '/' :: _ => true
  | '\\' :: _ => true
  | _ :: ':' :: _ => true
  | _ => false

/-- What a trimmed segment contributes. -/
def checkSegment (what path : String) (segment : List Char) : Except Issue (Option String) :=
  if segment = ['.'] then .ok none
  else if segment = [] ∨ segment = ['.', '.'] then
    .error (.pathSegment (String.ofList segment) what path)
  else if segment.contains '\\' then .error (.backslash what path)
  else .ok (some (String.ofList segment))

/-- The segments of a path; `what` names its role in messages. -/
def split (what path : String) : Except Issue (List String) := do
  if looksAbsolute path.toList then throw (.absolutePath what path)
  let segments ← (path.toList.splitOn '/').mapM fun segment =>
    checkSegment what path (trim segment)
  return segments.filterMap id

end CadTimeline.Segments
