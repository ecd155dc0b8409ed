import SortLast.Geometry.View
import SortLast.Proofs.Partition.Visibility
import SortLast.Proofs.Scalar.Arithmetic

/-!
# The eye of a parallel view

The rays of a parallel view have a direction and no common point. Its eye is a point all the same: the
origin of eye space, moved a million times as far as the third axis of eye space reaches, against the
rays. Two roundings stand between its coordinates and their exact places.

* `View.origin`, `View.towardsEye`: the origin and the third axis of eye space, in object space.
* `Matrix.InvertedBy`: a matrix whose inverse is exact.
* `View.Clears`: a box that ends before the eye along the axes that the rays cross.
* `View.exists_way`: what is rounded on the way to a coordinate of the eye.
* `View.le_eye`, `View.eye_le`: a scalar that the exact place is well beyond is not beyond the eye.
-/

namespace SortLast

/-! ### Exact matrices -/

/-- The components of a vector read as exact numbers. -/
def Vec4.exact (v : Vec4 Single) : Vec4 Rat := v.map Single.toRat

namespace Matrix

/-- The image of a vector, without any rounding. -/
def exactMulVec (m : Matrix) (v : Vec4 Rat) : Vec4 Rat :=
  m.x.exact * v.x + m.y.exact * v.y + m.z.exact * v.z + m.w.exact * v.w

/-- Two matrices of finite entries whose exact product is the identity. -/
structure InvertedBy (m n : Matrix) : Prop where
  entries_isFinite : ∀ s ∈ m.toList, s.isFinite
  inverse_isFinite : ∀ s ∈ n.toList, s.isFinite
  product_x : m.exactMulVec n.x.exact = ⟨1, 0, 0, 0⟩
  product_y : m.exactMulVec n.y.exact = ⟨0, 1, 0, 0⟩
  product_z : m.exactMulVec n.z.exact = ⟨0, 0, 1, 0⟩
  product_w : m.exactMulVec n.w.exact = ⟨0, 0, 0, 1⟩

instance (m n : Matrix) : Decidable (m.InvertedBy n) :=
  decidable_of_iff ((∀ s ∈ m.toList, s.isFinite) ∧ (∀ s ∈ n.toList, s.isFinite) ∧
    m.exactMulVec n.x.exact = ⟨1, 0, 0, 0⟩ ∧ m.exactMulVec n.y.exact = ⟨0, 1, 0, 0⟩ ∧
    m.exactMulVec n.z.exact = ⟨0, 0, 1, 0⟩ ∧ m.exactMulVec n.w.exact = ⟨0, 0, 0, 1⟩)
    ⟨fun ⟨hm, hn, hx, hy, hz, hw⟩ => ⟨hm, hn, hx, hy, hz, hw⟩,
      fun ⟨hm, hn, hx, hy, hz, hw⟩ => ⟨hm, hn, hx, hy, hz, hw⟩⟩

theorem of_transformPoint (m : Matrix) (p : Point) (a : Axis) :
    a.of (m.transformPoint p) = a.of m.w.truncate + (a.of m.z.truncate * p.z +
      (a.of m.y.truncate * p.y + a.of m.x.truncate * p.x)) := by
  cases a <;> rfl

/-- The columns of a matrix of finite entries are finite. -/
theorem truncate_isFinite {m : Matrix} (h : ∀ s ∈ m.toList, s.isFinite) (a : Axis) :
    (a.of m.x.truncate).isFinite ∧ (a.of m.y.truncate).isFinite ∧
      (a.of m.z.truncate).isFinite ∧ (a.of m.w.truncate).isFinite := by
  simp only [toList, List.forall_mem_cons] at h
  cases a <;> simp [Axis.of, Vec4.truncate, h]

end Matrix

/-! ### The eye -/

namespace View

/-- The origin of eye space. -/
def origin (v : View) : Point := v.modelview.inverse.w.truncate

/-- The third axis of eye space, the direction against which the rays of a parallel view run. -/
def towardsEye (v : View) : Point := v.modelview.inverse.z.truncate

/-- The points of a box lie on or before the view plane, where the third coordinate of eye space is not
positive. -/
def InFront (v : View) (b : Box) : Prop :=
  ∀ q : Vec3 Rat, b.Holds q → (v.modelview.exactMulVec ⟨q.x, q.y, q.z, 1⟩).z ≤ 0

/-- A box ends before the eye along every axis that the rays cross, by a millionth of the way. -/
def Clears (v : View) (b : Box) : Prop :=
  ∀ a : Axis,
    (0 < (a.of v.towardsEye).toRat →
      (a.of b.max).toRat ≤ (a.of v.origin).toRat + (a.of v.towardsEye).toRat * 999999) ∧
    ((a.of v.towardsEye).toRat < 0 →
      (a.of v.origin).toRat + (a.of v.towardsEye).toRat * 999999 ≤ (a.of b.min).toRat)

variable {v : View} {s : Single}

/-- The coordinates of the eye without those of eye space that are zero. -/
theorem of_eye (hv : v.isPerspective = false) (a : Axis) :
    a.of v.eye = a.of v.origin + (a.of v.towardsEye * parallelEyeDistance +
      (a.of v.modelview.inverse.y.truncate * 0 + a.of v.modelview.inverse.x.truncate * 0)) := by
  have hfar : (⟨0, 0, 1⟩ : Point) * parallelEyeDistance = ⟨0, 0, parallelEyeDistance⟩ := by
    decide +kernel
  rw [eye, hv, if_neg (by decide), hfar, Matrix.of_transformPoint]
  rfl

/-- The eye is the origin and the way to it, which has been rounded once. -/
theorem exists_way (hv : v.isPerspective = false)
    (hfin : ∀ s ∈ v.modelview.inverse.toList, s.isFinite) (a : Axis) : ∃ way : Single,
    Single.Rounded ((a.of v.towardsEye).toRat * 1000000) way ∧
      a.of v.eye = a.of v.origin + way := by
  obtain ⟨hx, hy, hz, -⟩ := Matrix.truncate_isFinite hfin a
  obtain ⟨hfx, hvx⟩ := Single.mul_zero_finite hx
  obtain ⟨hfy, hvy⟩ := Single.mul_zero_finite hy
  have hzeros := Single.add_rounded hfy hfx
  rw [hvx, hvy, add_zero, ← hvx] at hzeros
  obtain ⟨hfzeros, hvzeros⟩ := hzeros.eq hfx
  obtain ⟨hdistance, hvalue⟩ := Single.toRat_ofNat (n := 1000000) (by decide)
  have hway := Single.mul_rounded hz hdistance
  rw [hvalue] at hway
  exact ⟨_, hway.add_zero hfzeros (hvzeros.trans hvx), of_eye hv a⟩

section

variable (hv : v.isPerspective = false) (hfin : ∀ s ∈ v.modelview.inverse.toList, s.isFinite)
  (a : Axis)

include hfin

theorem origin_isFinite : (a.of v.origin).isFinite :=
  (Matrix.truncate_isFinite hfin a).2.2.2

theorem towardsEye_isFinite : (a.of v.towardsEye).isFinite :=
  (Matrix.truncate_isFinite hfin a).2.2.1

/-- Rounding takes no more from the way than a millionth. -/
theorem abs_way_sub {way : Single} (hd : (a.of v.towardsEye).toRat ≠ 0)
    (h : Single.Rounded ((a.of v.towardsEye).toRat * 1000000) way) (hway : way.isFinite) :
    |way.toRat - (a.of v.towardsEye).toRat * 1000000| ≤ |(a.of v.towardsEye).toRat| := by
  have hleast := Single.le_abs_toRat (towardsEye_isFinite hfin a) hd
  have herror := h.error hway
  rw [abs_mul, abs_of_pos (show (0 : Rat) < 1000000 by norm_num)] at herror
  linarith

include hv

theorem eye_isNaN : (a.of v.eye).isNaN = false := by
  obtain ⟨way, hway, heye⟩ := exists_way hv hfin a
  rw [heye]
  rcases hway.finite_add (origin_isFinite hfin a) with ⟨-, hsum⟩ | ⟨-, hsum⟩
  · exact hsum.isNaN
  · rw [hsum]
    exact hway.isNaN

/-- Where rays come from above, the eye is not below anything that ends before its exact place by a
millionth of the way. -/
theorem le_eye (hd : 0 < (a.of v.towardsEye).toRat) (hs : s.isFinite)
    (hle : s.toRat ≤ (a.of v.origin).toRat + (a.of v.towardsEye).toRat * 999999) :
    s ≤ a.of v.eye := by
  obtain ⟨way, hway, heye⟩ := exists_way hv hfin a
  rw [heye]
  rcases hway.finite_add (origin_isFinite hfin a) with ⟨hfway, hsum⟩ | ⟨hinf, hsum⟩
  · have herror := abs_le.1 (abs_way_sub hfin a hd.ne' hway hfway)
    rw [abs_of_pos hd] at herror
    exact hsum.le_of_toRat_le hs (by linarith)
  · have hlimit := not_lt.1 (mt hway.isFinite_iff.2 hinf)
    have hlt := abs_lt.1 (Single.abs_toRat_lt hs)
    rw [abs_of_pos (by linarith)] at hlimit
    rw [hsum]
    exact hway.le_of_toRat_le hs (by linarith)

theorem eye_le (hd : (a.of v.towardsEye).toRat < 0) (hs : s.isFinite)
    (hle : (a.of v.origin).toRat + (a.of v.towardsEye).toRat * 999999 ≤ s.toRat) :
    a.of v.eye ≤ s := by
  obtain ⟨way, hway, heye⟩ := exists_way hv hfin a
  rw [heye]
  rcases hway.finite_add (origin_isFinite hfin a) with ⟨hfway, hsum⟩ | ⟨hinf, hsum⟩
  · have herror := abs_le.1 (abs_way_sub hfin a hd.ne hway hfway)
    rw [abs_of_neg hd] at herror
    exact hsum.le_of_le_toRat hs (by linarith)
  · have hlimit := not_lt.1 (mt hway.isFinite_iff.2 hinf)
    have hlt := abs_lt.1 (Single.abs_toRat_lt hs)
    rw [abs_of_neg (by linarith)] at hlimit
    rw [hsum]
    exact hway.le_of_le_toRat hs (by linarith)

end

/-- A parallel view along the diagonal of the first and the third axis. -/
def diagonal : View :=
  ⟨.identity, ⟨⟨1, 0, 1, 0⟩, ⟨0, 1, 0, 0⟩, ⟨-1, 0, 1, 0⟩, ⟨0, 0, 0, 1⟩⟩⟩

example : diagonal.towardsEye = ⟨1 / 2, -0, 1 / 2⟩ ∧ diagonal.eye = ⟨500000, 0, 500000⟩ := by
  decide +kernel

end View
end SortLast
