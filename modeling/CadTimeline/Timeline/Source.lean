import CadTimeline.Issue
import CadTimeline.Timeline.Block

/-!
# Blocks of a source

A source is well formed when all its lines can be split and belong to blocks.
-/

namespace CadTimeline.Block

/-- The block of an entry, or what is wrong with it. -/
def Entry.toBlock : Entry → Except LineIssue Block
  | .block b => .ok b
  | .stray line => .error ⟨line.number, .strayLine line.firstWord⟩
  | .broken fault => .error ⟨fault.number, .malformed fault.cause⟩

/-- The blocks of a well-formed source; otherwise its first fault. -/
def ofSource (source : String) : Except LineIssue (List Block) :=
  (entries (Line.ofSource source.toList)).mapM Entry.toBlock

end CadTimeline.Block
