/-!
# Lines of a text

A line ends in a line feed, before which one carriage return is dropped. The
text after the last line feed is a line only if it is not empty.
-/

namespace CadTimeline.Text

/-- A line without the carriage return that preceded its line feed. -/
def dropReturn (line : List Char) : List Char :=
  if line.getLast? = some '\r' then line.dropLast else line

/-- The line that no line feed ends, if there is one. -/
def lastLine (pieces : List (List Char)) : List (List Char) :=
  (pieces.getLast?.filter (· ≠ [])).toList

def lines (cs : List Char) : List (List Char) :=
  let pieces := cs.splitOn '\n'
  pieces.dropLast.map dropReturn ++ lastLine pieces

end CadTimeline.Text
