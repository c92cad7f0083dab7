import CadTimeline.Rails.Sketch

/-!
# Cross rails

A `cross_rails` block derives rails that run across a family of parallel
sketches. A rail lies in a plane normal to another axis; its points are those of
the tagged segments that lie in that plane.
-/

namespace CadTimeline

structure CrossRails where
  folder : List String
  /-- The text in front of the names of the files. -/
  namePrefix : Option String
  railNames : List String
  profileNormal : Axis
  railNormal : Axis
  offsets : List Float
  segmentWord : String
  /-- The line of the block header. -/
  line : Nat
deriving Repr

namespace CrossRails

/-- The values of the record with this key word. -/
def valuesOf (records : List Record) (word : String) : List Value :=
  ((records.find? (·.word == word)).map Record.values).getD []

def textsOf (records : List Record) (word : String) : List String :=
  (valuesOf records word).filterMap Value.toText?

/-- The first text of a definition line, empty if there is none. -/
def textOf (records : List Record) (word : String) : String :=
  (textsOf records word).headD ""

/-- The folder and the file name prefix in the header. -/
def readHeader (scope : Scope) (header : Line) : Except Issue (List String × Option String) := do
  match header.fields with
  | _ :: folder :: rest =>
    if rest.length > 1 then throw (.crossRailsHeader header.fields.length)
    let folder ← Segments.split "folder" (← scope.substitute folder.text)
    match rest.head? with
    | some field => return (folder, some (← scope.substitute field.text))
    | none => return (folder, none)
  | fields => throw (.crossRailsHeader fields.length)

/-- The definition that the records of a block make up. -/
def ofRecords (folder : List String) (namePrefix : Option String) (line : Nat)
    (records : List Record) : Except Issue CrossRails := do
  let profileWord := textOf records "profile_plane_normal"
  let railWord := textOf records "rail_plane_normal"
  if profileWord = railWord then throw (.equalNormals profileWord)
  let railNames := textsOf records "rail_names"
  let offsets := (valuesOf records "rail_plane_offsets").filterMap Value.toFloat?
  let segmentWord := textOf records "rail_segment_type"
  match Axis.ofWord? profileWord, Axis.ofWord? railWord with
  | some profileNormal, some railNormal =>
    return { folder, namePrefix, railNames, profileNormal, railNormal, offsets, segmentWord, line }
  -- no point lies in a plane without an axis, so there are no planes to draw in
  | _, _ =>
    return { folder, namePrefix, railNames, profileNormal := .x, railNormal := .y, offsets := [],
             segmentWord, line }

def ofBlock (scope : Scope) (block : Block) : Except LineIssue CrossRails := do
  let (folder, namePrefix) ← (readHeader scope block.header).mapError (⟨block.number, ·⟩)
  let schema ← Keyword.crossRails.findSchema.mapError (⟨block.number, ·⟩)
  let records ← Body.read schema scope block
  (ofRecords folder namePrefix block.number records).mapError (⟨block.number, ·⟩)

/-- The schema of a definition is always found. -/
theorem ofBlock_eq (scope : Scope) (block : Block) :
    ofBlock scope block = (do
      let (folder, namePrefix) ← (readHeader scope block.header).mapError (⟨block.number, ·⟩)
      let records ← Body.read Schema.crossRails scope block
      (ofRecords folder namePrefix block.number records).mapError (⟨block.number, ·⟩)) := by
  rw [ofBlock, Keyword.findSchema_crossRails]
  rfl

def directory (rails : CrossRails) (root : Path) : Path :=
  root.joinAll rails.folder

/-- The point of a profile sketch when it lies in the plane of the rail, to within
a fixed tolerance. -/
def pointInPlane? (profileNormal : Axis) (profileOffset : Float) (railNormal : Axis)
    (railOffset a b : Float) : Option Point :=
  let point := Point.lift profileNormal profileOffset a b
  if profileNormal = railNormal then none
  else if (point.along railNormal - railOffset).abs < 1e-9 then some point
  else none

/-- The two coordinates that a data row starts with. -/
def coordinates? : List Value → Option (Float × Float)
  | a :: b :: _ => do return (← a.toFloat?, ← b.toFloat?)
  | _ => none

/-- The points of one sketch on a rail, in the order of its rows. -/
def profilePoints (rails : CrossRails) (rail : String) (offset : Float) (profile : Action) :
    List Point :=
  match profile.plane? with
  | none => []
  | some (axis, profileOffset) =>
    if axis = rails.profileNormal then
      (profile.segments.filter (·.isOnCrossRail rail)).flatMap fun segment =>
        segment.rows.filterMap fun row => do
          let (a, b) ← coordinates? row
          pointInPlane? axis profileOffset rails.railNormal offset a b
    else []

/-- The points without those that are the same as an earlier one. -/
def distinct (points : List Point) : List Point :=
  points.foldl (fun kept p => if kept.any (Point.same · p) then kept else kept ++ [p]) []

/-- The points of a rail in the plane at an offset. -/
def points (rails : CrossRails) (profiles : List Action) (rail : String) (offset : Float) :
    List Point :=
  distinct (profiles.flatMap (rails.profilePoints rail offset))

/-- Rounded to hundredths, a half going away from zero. -/
def roundCents (x : Float) : Float :=
  Binary64.round (x * 100.0) / 100.0

/-- The data row of a point in a rail sketch. -/
def pointRow (rails : CrossRails) (point : Point) : String :=
  let (a, b) := point.project rails.railNormal
  File.row [Number.plain (roundCents a), Number.plain (roundCents b)]

/-- The sketch of a rail in the plane at an offset, unless it has fewer than two
points. -/
def sketch? (rails : CrossRails) (profiles : List Action) (root : Path) (unit : LengthUnit)
    (offset : Float) (rail : String) : Option RailSketch :=
  let points := rails.points profiles rail offset
  if points.length < 2 then none
  else
    some {
      path := (rails.directory root).join
        (FileName.rail rails.namePrefix rails.railNormal.word offset rail)
      text := RailSketch.preamble unit rails.railNormal offset ++ File.row [rails.segmentWord] ++
        String.join (points.map rails.pointRow) }

/-- The rail sketches, by offset and then by rail name. -/
def sketches (rails : CrossRails) (profiles : List Action) (root : Path) (unit : LengthUnit) :
    List RailSketch :=
  rails.offsets.flatMap fun offset =>
    rails.railNames.filterMap (rails.sketch? profiles root unit offset)

end CrossRails

end CadTimeline
