/-!
# Axes and points

The three coordinate axes, and how points of a sketch lie in space. A sketch
plane is normal to one axis, at an offset along it; the two coordinates in the
sketch are those along the other two axes, in their usual order.
-/

namespace CadTimeline

inductive Axis where
  | x
  | y
  | z
deriving DecidableEq, Repr

namespace Axis

def word : Axis → String
  | x => "x"
  | y => "y"
  | z => "z"

def ofWord? (word : String) : Option Axis :=
  [x, y, z].find? (·.word == word)

theorem ofWord?_word (axis : Axis) : ofWord? axis.word = some axis := by
  cases axis <;> decide

theorem word_injective {a b : Axis} (h : a.word = b.word) : a = b := by
  rw [← Option.some_inj, ← ofWord?_word a, ← ofWord?_word b, h]

end Axis

structure Point where
  x : Float
  y : Float
  z : Float
deriving Repr

namespace Point

/-- Points are the same when their coordinates are equal as numbers. -/
def same (p q : Point) : Bool :=
  p.x == q.x && p.y == q.y && p.z == q.z

def along (p : Point) : Axis → Float
  | .x => p.x
  | .y => p.y
  | .z => p.z

/-- The point `(a, b)` of a sketch plane with this normal and offset. -/
def lift (normal : Axis) (offset a b : Float) : Point :=
  match normal with
  | .x => ⟨offset, a, b⟩
  | .y => ⟨a, offset, b⟩
  | .z => ⟨a, b, offset⟩

/-- The coordinates of the point in a sketch plane with this normal. -/
def project (p : Point) (normal : Axis) : Float × Float :=
  match normal with
  | .x => (p.y, p.z)
  | .y => (p.x, p.z)
  | .z => (p.x, p.y)

theorem project_lift (normal : Axis) (offset a b : Float) :
    (lift normal offset a b).project normal = (a, b) := by
  cases normal <;> rfl

theorem along_lift (normal : Axis) (offset a b : Float) :
    (lift normal offset a b).along normal = offset := by
  cases normal <;> rfl

end Point

end CadTimeline
