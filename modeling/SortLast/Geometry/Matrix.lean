import SortLast.Geometry.Vector

/-!
# Matrices

Four-by-four matrices by columns. Every sum is taken in the order written here.

* `Matrix.mulVec`, `Matrix.mul`, `Matrix.transformPoint`.
* `Matrix.inverse`: by cofactors.
* `Matrix.lookAt`, `Matrix.perspective`: right-handed viewing transformations.
-/

namespace SortLast

/-- A four-by-four matrix, column by column. -/
structure Matrix where
  x : Vec4 Single
  y : Vec4 Single
  z : Vec4 Single
  w : Vec4 Single
  deriving DecidableEq, Repr, Inhabited

namespace Matrix

/-- The identity. -/
def identity : Matrix := ⟨⟨1, 0, 0, 0⟩, ⟨0, 1, 0, 0⟩, ⟨0, 0, 1, 0⟩, ⟨0, 0, 0, 1⟩⟩

/-- The sixteen entries, column by column. -/
def toList (m : Matrix) : List Single :=
  [m.x.x, m.x.y, m.x.z, m.x.w, m.y.x, m.y.y, m.y.z, m.y.w,
   m.z.x, m.z.y, m.z.z, m.z.w, m.w.x, m.w.y, m.w.z, m.w.w]

/-- The image of a vector. -/
def mulVec (m : Matrix) (v : Vec4 Single) : Vec4 Single :=
  m.x * v.x + m.y * v.y + m.z * v.z + m.w * v.w

/-- The product, column by column. -/
def mul (a b : Matrix) : Matrix := ⟨a.mulVec b.x, a.mulVec b.y, a.mulVec b.z, a.mulVec b.w⟩

instance : Mul Matrix := ⟨mul⟩

/-- The image of a point, without a division by the fourth component. -/
def transformPoint (m : Matrix) (p : Point) : Point :=
  (m.w + (m.z * p.z + (m.y * p.y + m.x * p.x))).truncate

/-- The two-by-two minors of the last two rows that the cofactors need: `i` and `j` pick a row. -/
def minors (m : Matrix) (i j : Vec4 Single → Single) : Vec4 Single :=
  let zw := i m.z * j m.w - i m.w * j m.z
  ⟨zw, zw, i m.y * j m.w - i m.w * j m.y, i m.y * j m.z - i m.z * j m.y⟩

/-- Row `k` of the matrix as the cofactors need it. -/
def rowLanes (m : Matrix) (k : Vec4 Single → Single) : Vec4 Single :=
  ⟨k m.y, k m.x, k m.x, k m.x⟩

/-- The inverse, by cofactors over the determinant. -/
def inverse (m : Matrix) : Matrix :=
  let f0 := m.minors Vec4.z Vec4.w
  let f1 := m.minors Vec4.y Vec4.w
  let f2 := m.minors Vec4.y Vec4.z
  let f3 := m.minors Vec4.x Vec4.w
  let f4 := m.minors Vec4.x Vec4.z
  let f5 := m.minors Vec4.x Vec4.y
  let v0 := m.rowLanes Vec4.x
  let v1 := m.rowLanes Vec4.y
  let v2 := m.rowLanes Vec4.z
  let v3 := m.rowLanes Vec4.w
  let a : Vec4 Single := ⟨-1, 1, -1, 1⟩
  let b : Vec4 Single := ⟨1, -1, 1, -1⟩
  let i0 := b * (v1 * f0 - v2 * f1 + v3 * f2)
  let i1 := a * (v0 * f0 - v2 * f3 + v3 * f4)
  let i2 := b * (v0 * f1 - v1 * f3 + v3 * f5)
  let i3 := a * (v0 * f2 - v1 * f4 + v2 * f5)
  let p := m.x * (⟨i0.x, i1.x, i2.x, i3.x⟩ : Vec4 Single)
  let reciprocal := 1 / ((p.x + p.z) + (p.y + p.w))
  ⟨i0 * reciprocal, i1 * reciprocal, i2 * reciprocal, i3 * reciprocal⟩

/-- The transformation into the frame of an eye that looks at `center`. -/
def lookAt (eye center up : Point) : Matrix :=
  let f := (center - eye).normalize
  let s := (f.cross up).normalize
  let u := s.cross f
  ⟨⟨s.x, u.x, -f.x, 0⟩, ⟨s.y, u.y, -f.y, 0⟩, ⟨s.z, u.z, -f.z, 0⟩,
   ⟨-(eye.dot s), -(eye.dot u), eye.dot f, 1⟩⟩

end Matrix

end SortLast
