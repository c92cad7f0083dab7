/-!
# Block keywords

The words that open the blocks of a timeline. An action block becomes one file;
the other blocks direct how the action blocks after them are read, or derive
further files from them.
-/

namespace CadTimeline

/-- The kinds of block that describe one step in the CAD program. -/
inductive ActionKind where
  | sketch
  | plane
  | loft
  | extrude
  | revolve
  | split
  | combine
  | mirror
  | moveCopy
  | modifyEdges
  | assembly
  | assemblies
  | design
deriving DecidableEq, Repr

namespace ActionKind

def all : List ActionKind :=
  [sketch, plane, loft, extrude, revolve, split, combine, mirror, moveCopy, modifyEdges, assembly,
    assemblies, design]

def word : ActionKind → String
  | sketch => "sketch"
  | plane => "plane"
  | loft => "loft"
  | extrude => "extrude"
  | revolve => "revolve"
  | split => "split"
  | combine => "combine"
  | mirror => "mirror"
  | moveCopy => "movecopy"
  | modifyEdges => "modifyedges"
  | assembly => "assembly"
  | assemblies => "assemblies"
  | design => "design"

theorem mem_all (kind : ActionKind) : kind ∈ all := by
  cases kind <;> decide

end ActionKind

inductive Keyword where
  | parameters
  | units
  | crossRails
  | echo
  | action (kind : ActionKind)
deriving DecidableEq, Repr

namespace Keyword

def all : List Keyword :=
  [parameters, units, crossRails, echo] ++ ActionKind.all.map action

def word : Keyword → String
  | parameters => "parameters"
  | units => "units"
  | crossRails => "cross_rails"
  | echo => "echo"
  | action kind => kind.word

def ofWord? (word : String) : Option Keyword :=
  all.find? (·.word == word)

/-- Whether a block of this keyword becomes a file of its own. -/
def isAction : Keyword → Bool
  | action _ => true
  | _ => false

/-- Whether an `echo` line belongs to the body of a block, which it otherwise ends. -/
def acceptsEcho : Keyword → Bool
  | action .assembly => true
  | action .assemblies => true
  | action .design => true
  | _ => false

theorem mem_all (keyword : Keyword) : keyword ∈ all := by
  cases keyword with
  | action kind => exact List.mem_append_right _ (List.mem_map_of_mem (ActionKind.mem_all kind))
  | _ => decide

theorem ofWord?_word (keyword : Keyword) : ofWord? keyword.word = some keyword := by
  rcases keyword with _ | _ | _ | _ | kind
  case action => cases kind <;> decide
  all_goals decide

theorem word_of_ofWord? {text : String} {keyword : Keyword} (h : ofWord? text = some keyword) :
    keyword.word = text := by
  have hfound : (keyword.word == text) = true :=
    @List.find?_some _ (fun keyword => word keyword == text) _ _ h
  exact beq_iff_eq.mp hfound

end Keyword

end CadTimeline
