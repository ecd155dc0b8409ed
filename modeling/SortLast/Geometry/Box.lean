import SortLast.Geometry.Vector

/-!
# Boxes

Axis-aligned boxes in object space.

* `Axis`: a coordinate axis.
* `Box`: a box by its two corners, with its measures, `split`, `contains`, `intersection`, `merge`.
* `Box.isSolid`: finite and of positive extent along every axis.
-/

namespace SortLast

/-- A coordinate axis. -/
inductive Axis where
  | x
  | y
  | z
  deriving DecidableEq, Repr, Inhabited

namespace Axis

/-- All axes in order. -/
def all : List Axis := [x, y, z]

/-- The component of a vector along an axis. -/
def of {α : Type} (a : Axis) (v : Vec3 α) : α :=
  match a with
  | x => v.x
  | y => v.y
  | z => v.z

/-- The vector with its component along an axis replaced. -/
def put {α : Type} (a : Axis) (v : Vec3 α) (s : α) : Vec3 α :=
  match a with
  | x => { v with x := s }
  | y => { v with y := s }
  | z => { v with z := s }

end Axis

/-- An axis-aligned box, closed on all sides. -/
structure Box where
  min : Point
  max : Point
  deriving DecidableEq, Repr, Inhabited

namespace Box

/-- The box around `center` with the given size. -/
def ofCenterSize (center size : Point) : Box :=
  let half := size * (0.5 : Single)
  ⟨center - half, center + half⟩

/-- The middle of a box. -/
def center (b : Box) : Point := (b.min + b.max) * (0.5 : Single)

/-- The extent along each axis. -/
def size (b : Box) : Point := b.max - b.min

/-- The enclosed volume, zero for an inverted box. -/
def volume (b : Box) : Single :=
  let size := b.size.max Vec3.zero
  size.x * size.y * size.z

/-- Finite corners, and positive extent along every axis. -/
def isSolid (b : Box) : Bool :=
  b.min.isFinite && b.max.isFinite &&
    decide (b.min.x < b.max.x) && decide (b.min.y < b.max.y) && decide (b.min.z < b.max.z)

/-- The axis of the largest extent, the first one of equals. -/
def longestAxis (b : Box) : Axis :=
  let size := b.size
  [Axis.y, Axis.z].foldl (fun best a => if best.of size < a.of size then a else best) Axis.x

/-- The two parts below and above a plane; both contain the plane. -/
def split (b : Box) (a : Axis) (position : Single) : Box × Box :=
  ({ b with max := a.put b.max position }, { b with min := a.put b.min position })

/-- True for the points of a box, its faces included. -/
def contains (b : Box) (p : Point) : Bool :=
  decide (b.min.x ≤ p.x) && decide (p.x ≤ b.max.x) &&
    decide (b.min.y ≤ p.y) && decide (p.y ≤ b.max.y) &&
    decide (b.min.z ≤ p.z) && decide (p.z ≤ b.max.z)

/-- The common part of two boxes, if it has a volume. -/
def intersection (a b : Box) : Option Box :=
  let overlap : Box := ⟨a.min.max b.min, a.max.min b.max⟩
  -- the volume of a thin overlap may vanish by underflow
  if 0 < overlap.volume then some overlap else none

/-- The smallest box around two boxes. -/
def merge (a b : Box) : Box := ⟨a.min.min b.min, a.max.max b.max⟩

/-- The eight corners, the first coordinate varying fastest. -/
def corners (b : Box) : List Point :=
  [⟨b.min.x, b.min.y, b.min.z⟩, ⟨b.max.x, b.min.y, b.min.z⟩,
   ⟨b.min.x, b.max.y, b.min.z⟩, ⟨b.max.x, b.max.y, b.min.z⟩,
   ⟨b.min.x, b.min.y, b.max.z⟩, ⟨b.max.x, b.min.y, b.max.z⟩,
   ⟨b.min.x, b.max.y, b.max.z⟩, ⟨b.max.x, b.max.y, b.max.z⟩]

/-- The written form of a box, with its fields named. -/
def markedText (b : Box) : String :=
  "Aabb \x7b min: " ++ b.min.markedText ++ ", max: " ++ b.max.markedText ++ " \x7d"

end Box

end SortLast
