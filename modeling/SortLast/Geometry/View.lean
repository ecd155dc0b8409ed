import SortLast.Geometry.Box
import SortLast.Geometry.Matrix
import SortLast.Geometry.Rect

/-!
# Views

A view is the pair of matrices sent to every participant for a frame.

* `View.eye`: the eye point in object space, far behind the view plane for parallel projections.
* `View.project`: the pixels that a box may cover in a window.
-/

namespace SortLast

/-- Projection and modelview matrices. -/
structure View where
  /-- From eye space to clip space. -/
  projection : Matrix
  /-- From object space to eye space. -/
  modelview : Matrix
  deriving DecidableEq, Repr, Inhabited

namespace View

/-- The view whose matrices are both the identity. -/
def default : View := ⟨.identity, .identity⟩

/-- True if the projection divides by the depth. -/
def isPerspective (v : View) : Bool := v.projection.w.w.sameValue 0

/-- Distance at which the eye of a parallel projection is put. -/
def parallelEyeDistance : Single := 1000000

/-- The eye point in object space. -/
def eye (v : View) : Point :=
  let inverse := v.modelview.inverse
  if v.isPerspective then inverse.transformPoint Vec3.zero
  else inverse.transformPoint ((⟨0, 0, 1⟩ : Point) * parallelEyeDistance)

/-- The smallest and the largest coordinates met so far in normalised device space. -/
structure Footprint where
  lo : Point
  hi : Point

/-- Widen a footprint by the corners of a box; `none` once a corner lies on or behind the eye
plane. -/
def footprint (transform : Matrix) : Footprint → List Point → Option Footprint
  | f, [] => some f
  | f, p :: rest =>
    let clip := transform.mulVec ⟨p.x, p.y, p.z, 1⟩
    if clip.w ≤ Single.epsilon then none
    else
      let device := clip.truncate / clip.w
      footprint transform ⟨f.lo.min device, f.hi.max device⟩ rest

/-- The pixels of a `width` by `height` window that a box may cover: `none` if it lies outside, the
whole window if it reaches behind the eye. -/
def project (v : View) (bounds : Box) (width height : UInt32) : Option Rect :=
  let transform := v.projection * v.modelview
  match footprint transform ⟨Vec3.splat .infinity, Vec3.splat .negInfinity⟩ bounds.corners with
  | none => some (.full width height)
  | some ⟨lo, hi⟩ =>
    if hi.x < -1 ∨ 1 < lo.x ∨ hi.y < -1 ∨ 1 < lo.y then none
    else
      let w := Single.ofNat width.toNat
      let h := Single.ofNat height.toNat
      let x0 := ((lo.x.max (-1) + 1) * 0.5 * w).floor
      let x1 := ((hi.x.min 1 + 1) * 0.5 * w).ceil
      let y0 := ((1 - hi.y.min 1) * 0.5 * h).floor
      let y1 := ((1 - lo.y.max (-1)) * 0.5 * h).ceil
      let rect := Rect.clip ⟨x0.toInt32, y0.toInt32, (x1 - x0).toUInt32, (y1 - y0).toUInt32⟩
        width height
      if rect.isEmpty then none else some rect

end View

end SortLast
