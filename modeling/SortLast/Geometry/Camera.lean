import SortLast.Geometry.View
import SortLast.Scalar.Circular

/-!
# Cameras

A perspective camera that looks at a target and can be placed on an orbit around it.
-/

namespace SortLast

/-- The perspective transformation for a vertical opening angle. -/
def Matrix.perspective (angle aspect near far : Single) : Matrix :=
  let half := 0.5 * angle
  let h := half.cos / half.sin
  let w := h / aspect
  let r := far / (near - far)
  ⟨⟨w, 0, 0, 0⟩, ⟨0, h, 0, 0⟩, ⟨0, 0, r, -1⟩, ⟨0, 0, r * near, 0⟩⟩

/-- A perspective camera. -/
structure Camera where
  position : Point := ⟨0, 0, 5⟩
  target : Point := Vec3.zero
  up : Point := ⟨0, 1, 0⟩
  /-- The vertical opening angle in radians, an eighth of a turn. -/
  angle : Single := ⟨0x3f490fdb⟩
  aspect : Single := 1
  near : Single := 0.1
  far : Single := 1000
  deriving DecidableEq, Repr

namespace Camera

/-- A whole turn in radians. -/
def turn : Single := ⟨0x40c90fdb⟩

/-- The camera on a horizontal circle around `center`, the angle measured from the third axis
towards the first. -/
def orbit (c : Camera) (center : Point) (radius height angle : Single) : Camera :=
  { c with
    target := center
    position := center + ⟨radius * angle.sin, height, radius * angle.cos⟩ }

/-- The transformation into eye space. -/
def viewMatrix (c : Camera) : Matrix := .lookAt c.position c.target c.up

/-- The transformation into clip space. -/
def projectionMatrix (c : Camera) : Matrix := .perspective c.angle c.aspect c.near c.far

/-- The view of a camera. -/
def view (c : Camera) : View := ⟨c.projectionMatrix, c.viewMatrix⟩

end Camera

end SortLast
