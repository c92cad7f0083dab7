import CadTimeline.Issue
import CadTimeline.Schema.Basic

/-!
# The schema of every block

What each kind of action block, and the `cross_rails` block, may hold.
-/

namespace CadTimeline

namespace FieldSpec

def number (name : String) : FieldSpec := ⟨name, .number⟩

def integer (name : String) : FieldSpec := ⟨name, .integer⟩

def text (name : String) : FieldSpec := ⟨name, .text⟩

def choice (name : String) (words : List String) : FieldSpec := ⟨name, .choice words⟩

end FieldSpec

namespace Fields

def fixed (required : List FieldSpec) : Fields := ⟨required, [], none⟩

def upTo (required optional : List FieldSpec) : Fields := ⟨required, optional, none⟩

/-- The last field is repeated at least `least` times. -/
def repeating (required : List FieldSpec) (last : FieldSpec) (least : Nat) : Fields :=
  ⟨required, [], some (last, least)⟩

def none : Fields := fixed []

end Fields

namespace Schema

open FieldSpec

def axisWords : List String := ["x", "y", "z"]

def stateWords : List String := ["on", "off"]

def objectWords : List String := ["component", "body"]

def mirrorWords : List String := ["new_component", "new_body", "join"]

def segmentWords : List String :=
  ["spline", "line", "arc", "circle", "ellipse", "point", "offset_curve", "textbox"]

def bare (key : List String) (fields : Fields) : LineKind where
  key := key
  fields := fields

/-- A kind of line with a key only and data rows. -/
def heading (word : String) (row : Fields) (least : Nat) (most : Option Nat) : LineKind where
  key := [word]
  fields := Fields.none
  rows := some ⟨row, least, most⟩

def segment (word : String) (row : Fields) (least : Nat) (most : Option Nat) : LineKind :=
  { heading word row least most with railTags := true }

def slot (name : String) (occurs : Occurs) (kinds : List LineKind) : Slot :=
  ⟨name, occurs, kinds⟩

/-- A slot with a single kind of line, named by its key word. -/
def single (word : String) (occurs : Occurs) (fields : Fields) : Slot :=
  ⟨word, occurs, [bare [word] fields]⟩

def headed (word : String) (occurs : Occurs) (row : Fields) (least : Nat) : Slot :=
  ⟨word, occurs, [heading word row least none]⟩

def planarPoint : Fields := .fixed [number "x", number "y"]

def spatialPoint : Fields := .fixed [number "x", number "y", number "z"]

def nameRow : Fields := .fixed [text "name"]

def sketchReference : Fields := .upTo [text "sketch"] [integer "index"]

def profileReference : Fields := .repeating [text "sketch"] (integer "index") 0

def angles : Fields := .upTo [number "angle"] [number "angle2"]

def echoLine : LineKind := bare ["echo"] (.repeating [] (text "text") 0)

def segments : List LineKind :=
  [segment "spline"
      (.upTo [number "x", number "y"] [number "tangent_angle", number "tangent_length"]) 2 none,
    segment "line" planarPoint 2 none,
    segment "arc" planarPoint 3 (some 3),
    segment "circle" (.fixed [number "center_x", number "center_y", number "radius"]) 1 none,
    segment "ellipse" planarPoint 3 (some 3),
    segment "point" planarPoint 1 none,
    segment "offset_curve"
      (.fixed [number "direction_x", number "direction_y", number "distance"]) 1 (some 1),
    segment "textbox" (.fixed [number "x", number "y", number "height", text "text"]) 1 (some 1)]

def bodyOperations : List LineKind :=
  let bodies := Fields.repeating [] (text "body") 1
  [bare ["operation", "join"] bodies,
    bare ["operation", "cut"] bodies,
    bare ["operation", "intersect"] bodies,
    bare ["operation", "new_body"] .none]

def results (word : String) : Slot :=
  single word .optional (.repeating [] (text "result") 1)

/-- The steps that an assembly performs, each for one location or for several. -/
def assemblyWords : List String :=
  ["create_sketch", "multiple_create_sketch", "create_plane", "multiple_create_plane",
    "create_loft", "multiple_create_loft", "run_extrude", "multiple_run_extrude", "run_revolve",
    "multiple_run_revolve", "run_split", "multiple_run_split", "run_combine",
    "multiple_run_combine", "run_mirror", "multiple_run_mirror", "run_movecopy",
    "multiple_run_movecopy", "run_modifyedges", "multiple_run_modifyedges"]

def assemblySteps : List LineKind :=
  assemblyWords.map fun word => bare [word] (.upTo [text "location"] [text "component"])

def assemblyFiles : List Slot :=
  [headed "assembly_filenames" .once (.fixed [text "filename"]) 1,
    slot "echo" .any [echoLine]]

def sketch : Schema where
  preamble := .keyword
  unitLine := true
  slots :=
    [slot "offset_plane" .once
      [{ bare ["offset_plane"] (.fixed [choice "axis" axisWords, number "offset"]) with
        keyShown := false }],
      slot "segment" .atLeastOnce segments]
  ordered := true

def plane : Schema where
  preamble := .keyword
  unitLine := true
  leadingRows := some ⟨spatialPoint, 3, some 3⟩
  slots := []
  ordered := true

def loft : Schema where
  preamble := .keywordNameGroup
  unitLine := false
  slots := [headed "profiles" .once sketchReference 2, headed "rails" .optional sketchReference 1]
  ordered := true

def extrude : Schema where
  preamble := .keywordNameGroup
  unitLine := true
  slots :=
    [slot "profile" .once
      [bare ["profile"] profileReference,
        bare ["text"] profileReference,
        bare ["face"] (.repeating [text "body"] (integer "index") 0)],
      single "offset" .once (.fixed [number "offset"]),
      single "taper_angle" .once angles,
      slot "extent_type" .once
        [bare ["extent_type", "distance"] (.upTo [number "distance"] [number "distance2"]),
          bare ["extent_type", "to_object"] (.fixed [text "object"])],
      slot "operation" .once bodyOperations,
      results "extrude_results"]
  ordered := true

def revolve : Schema where
  preamble := .keywordNameGroup
  unitLine := true
  slots :=
    [single "profile" .once profileReference,
      slot "rotation" .once
        [bare ["rotation_axis"] (.fixed [choice "axis" axisWords]),
          bare ["rotation_line"] sketchReference],
      single "rotation_angles" .once angles,
      slot "operation" .once bodyOperations,
      results "revolve_results",
      single "light_bulb" .optional (.fixed [choice "state" stateWords])]
  ordered := true

def split : Schema where
  preamble := .keyword
  unitLine := false
  slots :=
    [single "split_body" .once (.fixed [text "body"]),
      slot "split_tool" .once
        [bare ["split_tool", "plane"] (.fixed [text "plane"]),
          bare ["split_tool", "body"] (.fixed [text "body"])],
      headed "splitted_bodies" .once nameRow 1,
      headed "remove_bodies" .optional nameRow 0]
  ordered := true

def combine : Schema where
  preamble := .keywordThenName
  unitLine := false
  slots :=
    [slot "operation" .once [bare ["join"] .none, bare ["cut"] .none, bare ["intersect"] .none],
      single "target_body" .once (.fixed [text "body"]),
      headed "tool_bodies" .once nameRow 1]
  ordered := true

def mirror : Schema where
  preamble := .keywordNameGroup
  unitLine := false
  slots :=
    [single "operation" .once (.fixed [choice "operation" mirrorWords]),
      single "mirror_plane" .once (.fixed [text "plane"]),
      headed "mirror_objects" .once nameRow 1,
      headed "mirror_results" .once nameRow 1]
  ordered := true

def moveCopy : Schema where
  preamble := .keywordName
  unitLine := true
  slots :=
    let object := [choice "type" objectWords, text "object"]
    [slot "operation" .atLeastOnce
      [bare ["move"] (.fixed (object ++ [text "target"])),
        bare ["copy"] (.upTo (object ++ [text "copy_name"]) [text "target"]),
        bare ["remove"] (.fixed object),
        bare ["light_bulb"] (.fixed (object ++ [choice "state" stateWords])),
        bare ["translate"] (.fixed (object ++ [number "tx", number "ty", number "tz"])),
        bare ["rotate"]
          (.fixed (object ++ [number "axis_x", number "axis_y", number "axis_z", number "angle"]))]]
  ordered := false

def modifyEdges : Schema where
  preamble := .keywordName
  unitLine := true
  slots :=
    [slot "edge_operation" .atLeastOnce
      [bare ["log_edges"] (.fixed [text "body"]),
        bare ["fillet"] (.repeating [text "body", number "radius"] (integer "edge") 1),
        bare ["chamfer"]
          (.repeating [text "body", number "distance", number "angle"] (integer "edge") 1)]]
  ordered := false

def assembly : Schema where
  preamble := .keywordThenGroup
  unitLine := false
  slots := [slot "action" .atLeastOnce (assemblySteps ++ [echoLine])]
  ordered := false

def assemblies : Schema where
  preamble := .keywordNameGroup
  unitLine := false
  slots := assemblyFiles
  ordered := false

def design : Schema where
  preamble := .keywordNameGroup
  unitLine := false
  slots := assemblyFiles
  ordered := false

def crossRails : Schema where
  preamble := .keyword
  unitLine := false
  slots :=
    [single "rail_names" .once (.repeating [] (text "rail") 1),
      single "profile_plane_normal" .once (.fixed [choice "axis" axisWords]),
      single "rail_plane_normal" .once (.fixed [choice "axis" axisWords]),
      single "rail_plane_offsets" .once (.repeating [] (number "offset") 1),
      single "rail_segment_type" .once (.fixed [choice "segment" segmentWords])]
  ordered := true

end Schema

def ActionKind.schema : ActionKind → Schema
  | sketch => Schema.sketch
  | plane => Schema.plane
  | loft => Schema.loft
  | extrude => Schema.extrude
  | revolve => Schema.revolve
  | split => Schema.split
  | combine => Schema.combine
  | mirror => Schema.mirror
  | moveCopy => Schema.moveCopy
  | modifyEdges => Schema.modifyEdges
  | assembly => Schema.assembly
  | assemblies => Schema.assemblies
  | design => Schema.design

/-- The schemas in the order in which they are looked through. -/
def Schema.catalogue : List (Keyword × Schema) :=
  [(.action .sketch, sketch), (.action .plane, plane), (.action .loft, loft),
    (.action .extrude, extrude), (.action .revolve, revolve), (.action .split, split),
    (.action .combine, combine), (.action .mirror, mirror), (.action .moveCopy, moveCopy),
    (.action .modifyEdges, modifyEdges), (.action .assembly, assembly),
    (.action .assemblies, assemblies), (.action .design, design), (.crossRails, crossRails)]

namespace Keyword

/-- The schema of the blocks that hold records. -/
def schema? (keyword : Keyword) : Option Schema :=
  Schema.catalogue.lookup keyword

def findSchema (keyword : Keyword) : Except Issue Schema :=
  match keyword.schema? with
  | some schema => .ok schema
  | none => .error (.noSchema keyword)

theorem schema?_action (kind : ActionKind) : (action kind).schema? = some kind.schema := by
  cases kind <;> rfl

theorem findSchema_action (kind : ActionKind) : (action kind).findSchema = .ok kind.schema := by
  rw [findSchema, schema?_action]

theorem findSchema_crossRails : crossRails.findSchema = .ok Schema.crossRails :=
  rfl

end Keyword

end CadTimeline
