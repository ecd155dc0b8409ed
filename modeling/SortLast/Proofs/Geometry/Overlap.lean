import SortLast.Proofs.Partition.Bricks
import SortLast.Proofs.Scalar.Underflow

/-!
# The overlap of two boxes

Two boxes overlap if on every axis the larger of the lower faces is below the smaller of the upper
ones. The intersection decides this by the volume of the overlap, a product of three rounded extents.
No extent is rounded to zero, and nothing comes of an extent that is zero or negative, so what is
returned is the overlap and is solid. But the product is rounded to zero where it is too small, and
then the boxes are taken to be apart.

* `Box.overlap`, `Box.Overlaps`: the common part, and when there is one.
* `Box.VolumeVanishes`: the solid boxes whose volume is rounded to zero.
* `Box.volume_pos_iff`: which boxes have a positive volume.
* `Box.intersection_exact`: when there is an intersection, and which box it is.
-/

namespace SortLast
namespace Box

variable {b c : Box}

/-! ### Overlaps -/

/-- The common part of two boxes, inverted on the axes on which they are apart. -/
def overlap (b c : Box) : Box := ⟨b.min.max c.min, b.max.min c.max⟩

/-- On every axis the larger lower face is below the smaller upper one, as exact numbers. -/
def Overlaps (b c : Box) : Prop :=
  ∀ a : Axis, Max.max (a.of b.min).toRat (a.of c.min).toRat <
    Min.min (a.of b.max).toRat (a.of c.max).toRat

theorem of_overlap_min (b c : Box) (a : Axis) :
    a.of (b.overlap c).min = (a.of b.min).max (a.of c.min) := by cases a <;> rfl

theorem of_overlap_max (b c : Box) (a : Axis) :
    a.of (b.overlap c).max = (a.of b.max).min (a.of c.max) := by cases a <;> rfl

section

variable (hb : b.IsFinite) (hc : c.IsFinite)

include hb hc

theorem IsFinite.overlap : (b.overlap c).IsFinite := by
  intro a
  rw [of_overlap_min, of_overlap_max]
  exact ⟨(Single.max_finite (hb a).1 (hc a).1).1, (Single.min_finite (hb a).2 (hc a).2).1⟩

/-- The faces of the overlap, as exact numbers. -/
theorem toRat_overlap (a : Axis) :
    (a.of (b.overlap c).min).toRat = Max.max (a.of b.min).toRat (a.of c.min).toRat ∧
      (a.of (b.overlap c).max).toRat = Min.min (a.of b.max).toRat (a.of c.max).toRat := by
  rw [of_overlap_min, of_overlap_max]
  exact ⟨(Single.max_finite (hb a).1 (hc a).1).2, (Single.min_finite (hb a).2 (hc a).2).2⟩

theorem overlap_isSolid_iff : (b.overlap c).isSolid ↔ b.Overlaps c := by
  have hfin := hb.overlap hc
  rw [isSolid_iff]
  refine forall_congr' fun a => ?_
  obtain ⟨hmin, hmax⟩ := toRat_overlap hb hc a
  rw [← hmin, ← hmax, Single.lt_iff_toRat_lt (hfin a).1 (hfin a).2]
  exact ⟨fun h => h.2.2, fun h => ⟨(hfin a).1, (hfin a).2, h⟩⟩

/-- Which of two boxes comes first shows in the signs of zeros at most. -/
theorem overlap_comm : (b.overlap c).SameValue (c.overlap b) := by
  refine (sameValue_iff (hb.overlap hc) (hc.overlap hb)).2 fun a => ?_
  obtain ⟨hmin, hmax⟩ := toRat_overlap hb hc a
  obtain ⟨hmin', hmax'⟩ := toRat_overlap hc hb a
  exact ⟨by rw [hmin, hmin', max_comm], by rw [hmax, hmax', min_comm]⟩

end

/-! ### Volumes -/

/-- Boxes that agree as numbers have one size, if they are solid. -/
theorem size_congr (hb : b.isSolid) (hc : c.IsFinite) (h : b.SameValue c) : b.size = c.size := by
  rw [sameValue_iff (IsFinite.of_isSolid hb) hc] at h
  have haxis : ∀ a : Axis, a.of b.size = a.of c.size := by
    intro a
    obtain ⟨hmin, hmax, hlt⟩ := isSolid_iff.1 hb a
    have hne := ((Single.lt_iff_toRat_lt hmin hmax).1 hlt).ne'
    rw [of_size, of_size]
    exact Single.sub_congr hmax (hc a).2 hmin (hc a).1 (h a).2 (h a).1 hne
  obtain ⟨hx, hy, hz⟩ := Axis.forall_iff.1 haxis
  exact Vec3.mk.injEq .. ▸ ⟨hx, hy, hz⟩

/-- The volume is rounded to zero: the product of the first two extents is, or that of all three. -/
def VolumeVanishes (b : Box) : Prop :=
  Single.Vanishes b.size.x b.size.y ∨ Single.Vanishes (b.size.x * b.size.y) b.size.z

instance (b : Box) : Decidable b.VolumeVanishes := inferInstanceAs (Decidable (_ ∨ _))

/-- An extent counts in the volume as it is if the box is solid along its axis, and as nothing
otherwise. -/
theorem extent_cases (hb : b.IsFinite) (a : Axis) :
    a.of b.min < a.of b.max ∧ 0 < a.of b.size ∧ (a.of b.size).max 0 = a.of b.size ∨
      ¬ a.of b.min < a.of b.max ∧ ((a.of b.size).max 0).Null := by
  have hpos := Single.sub_pos_iff (hb a).2 (hb a).1
  have hnumber := (Single.sub_rounded (hb a).2 (hb a).1).isNaN
  rw [← of_size] at hpos hnumber
  rw [← hpos]
  exact (Single.max_zero hnumber).imp_left fun h => ⟨h.1, h⟩

/-- A finite box has a positive volume if it is solid and the volume is not rounded to zero. -/
theorem volume_pos_iff (hb : b.IsFinite) : 0 < b.volume ↔ b.isSolid ∧ ¬ b.VolumeVanishes := by
  have hvolume : b.volume = b.size.x.max 0 * b.size.y.max 0 * b.size.z.max 0 := rfl
  rw [hvolume]
  by_cases hsolid : b.isSolid
  · have hextent : ∀ a : Axis, 0 < a.of b.size ∧ (a.of b.size).max 0 = a.of b.size := fun a =>
      ((extent_cases hb a).resolve_right fun h => h.1 (isSolid_iff.1 hsolid a).2.2).2
    obtain ⟨⟨hx, hmaxx⟩, ⟨hy, hmaxy⟩, ⟨hz, hmaxz⟩⟩ := Axis.forall_iff.1 hextent
    simp only [Axis.of] at hx hy hz hmaxx hmaxy hmaxz
    rw [hmaxx, hmaxy, hmaxz, VolumeVanishes, not_or, and_iff_right hsolid]
    by_cases hxy : Single.Vanishes b.size.x b.size.y
    · have hnull := ((Single.mul_of_pos hx hy).2.2 hxy).mul_right b.size.z
      exact iff_of_false hnull.not_pos fun h => h.1 hxy
    · rw [Single.mul_pos_iff ((Single.mul_pos_iff hx hy).2 hxy) hz, and_iff_right hxy]
  · obtain ⟨a, hflat⟩ : ∃ a : Axis, ((a.of b.size).max 0).Null := by
      by_contra hnone
      refine hsolid (isSolid_iff.2 fun a => ⟨(hb a).1, (hb a).2, ?_⟩)
      exact ((extent_cases hb a).resolve_right fun h => hnone ⟨a, h.2⟩).1
    refine iff_of_false (Single.Null.not_pos ?_) fun h => hsolid h.1
    cases a with
    | x => exact (hflat.mul_right _).mul_right _
    | y => exact (hflat.mul_left _).mul_right _
    | z => exact hflat.mul_left _

/-- The volume of a box with extents of at least `2 ^ -49` is not rounded to zero. -/
theorem not_volumeVanishes (hb : b.IsFinite)
    (h : ∀ a : Axis, 1 / 2 ^ 49 ≤ (a.of b.max).toRat - (a.of b.min).toRat) : ¬ b.VolumeVanishes := by
  -- the scalars `2 ^ -49` and `2 ^ -98`
  have hedge : (⟨0x27000000⟩ : Single).toRat = 1 / 2 ^ 49 := by decide +kernel
  have hface : (⟨0x0e800000⟩ : Single).toRat = 1 / 2 ^ 98 := by decide +kernel
  have hextent : ∀ a : Axis, (⟨0x27000000⟩ : Single) ≤ a.of b.size := by
    intro a
    rw [of_size]
    exact (Single.sub_rounded (hb a).2 (hb a).1).le_of_toRat_le rfl (hedge ▸ h a)
  obtain ⟨hx, hy, hz⟩ := Axis.forall_iff.1 hextent
  have hpos : (0 : Single) < ⟨0x27000000⟩ := by decide
  have hxy : (⟨0x0e800000⟩ : Single) ≤ b.size.x * b.size.y :=
    Single.le_mul hpos hpos rfl rfl hx hy rfl (by rw [hedge, hface]; norm_num)
  rintro (hvanish | hvanish)
  · exact Single.not_vanishes hpos hpos rfl rfl hx hy (by rw [hedge]; norm_num) hvanish
  · exact Single.not_vanishes (by decide) hpos rfl rfl hxy hz (by rw [hedge, hface]; norm_num) hvanish

/-! ### Intersections -/

theorem intersection_eq_some_iff (hb : b.IsFinite) (hc : c.IsFinite) {d : Box} :
    b.intersection c = some d ↔ b.Overlaps c ∧ ¬ (b.overlap c).VolumeVanishes ∧ d = b.overlap c := by
  have hintersection : b.intersection c =
      if 0 < (b.overlap c).volume then some (b.overlap c) else none := rfl
  rw [hintersection, ← and_assoc, ← overlap_isSolid_iff hb hc, ← volume_pos_iff (hb.overlap hc)]
  split
  · rename_i hpos
    rw [and_iff_right hpos, Option.some.injEq, eq_comm]
  · rename_i hpos
    exact iff_of_false (by simp) fun h => hpos h.1

/-- Which of two boxes comes first does not show in whether there is an intersection. -/
theorem isSome_intersection_comm (hb : b.IsFinite) (hc : c.IsFinite) :
    (b.intersection c).isSome → (c.intersection b).isSome := by
  intro h
  obtain ⟨d, hd⟩ := Option.isSome_iff_exists.1 h
  obtain ⟨hoverlaps, hvolume, -⟩ := (intersection_eq_some_iff hb hc).1 hd
  have hsolid := (overlap_isSolid_iff hb hc).2 hoverlaps
  have hsize := size_congr hsolid (hc.overlap hb) (overlap_comm hb hc)
  refine Option.isSome_iff_exists.2 ⟨_, (intersection_eq_some_iff hc hb).2 ⟨fun a => ?_, ?_, rfl⟩⟩
  · rw [max_comm, min_comm]
    exact hoverlaps a
  · rwa [VolumeVanishes, ← hsize]

/-- Two solid boxes have an intersection exactly if they overlap and the volume of the overlap is not
rounded to zero, which it never is if the overlap is at least `2 ^ -49` wide on every axis. The
intersection is then the overlap, which is solid, and does not depend on which box comes first. -/
theorem intersection_exact (hb : b.isSolid) (hc : c.isSolid) :
    (∀ d, b.intersection c = some d ↔
      b.Overlaps c ∧ ¬ (b.overlap c).VolumeVanishes ∧ d = b.overlap c) ∧
    ((b.overlap c).isSolid ↔ b.Overlaps c) ∧
    (∀ a : Axis, (a.of (b.overlap c).min).toRat = Max.max (a.of b.min).toRat (a.of c.min).toRat ∧
      (a.of (b.overlap c).max).toRat = Min.min (a.of b.max).toRat (a.of c.max).toRat) ∧
    ((b.intersection c).isSome ↔ (c.intersection b).isSome) ∧
    (∀ d e, b.intersection c = some d → c.intersection b = some e → d.SameValue e) ∧
    ((∀ a : Axis, Max.max (a.of b.min).toRat (a.of c.min).toRat + 1 / 2 ^ 49 ≤
      Min.min (a.of b.max).toRat (a.of c.max).toRat) → b.intersection c = some (b.overlap c)) := by
  have hb := IsFinite.of_isSolid hb
  have hc := IsFinite.of_isSolid hc
  refine ⟨fun d => intersection_eq_some_iff hb hc, overlap_isSolid_iff hb hc, toRat_overlap hb hc,
    ⟨isSome_intersection_comm hb hc, isSome_intersection_comm hc hb⟩, ?_, fun hwide => ?_⟩
  · intro d e hd he
    obtain ⟨-, -, rfl⟩ := (intersection_eq_some_iff hb hc).1 hd
    obtain ⟨-, -, rfl⟩ := (intersection_eq_some_iff hc hb).1 he
    exact overlap_comm hb hc
  · refine (intersection_eq_some_iff hb hc).2 ⟨fun a => ?_, not_volumeVanishes (hb.overlap hc) ?_, rfl⟩
    · have hpos : (0 : Rat) < 1 / 2 ^ 49 := by positivity
      linarith [hwide a]
    · intro a
      rw [(toRat_overlap hb hc a).1, (toRat_overlap hb hc a).2]
      linarith [hwide a]

/-- Boxes that overlap in a corner. -/
theorem intersection_exact_corner :
    let b : Box := ⟨⟨0, 0, 0⟩, ⟨1, 1, 1⟩⟩
    let c : Box := ⟨⟨0.5, 0.5, 0.5⟩, ⟨2, 2, 2⟩⟩
    b.isSolid ∧ c.isSolid ∧ b.overlap c = ⟨⟨0.5, 0.5, 0.5⟩, ⟨1, 1, 1⟩⟩ ∧
      b.intersection c = some ⟨⟨0.5, 0.5, 0.5⟩, ⟨1, 1, 1⟩⟩ := by
  intro b c
  have hb : b.isSolid := by decide +kernel
  have hc : c.isSolid := by decide +kernel
  have hoverlap : b.overlap c = ⟨⟨0.5, 0.5, 0.5⟩, ⟨1, 1, 1⟩⟩ := by decide +kernel
  refine ⟨hb, hc, hoverlap, ?_⟩
  rw [← hoverlap]
  refine (intersection_exact hb hc).2.2.2.2.2 ?_
  rw [Axis.forall_iff]
  decide +kernel

/-- A cube with edges of `2 ^ -50` overlaps itself, but it has no intersection with itself: its volume
is half of the smallest positive scalar, which is rounded to zero. -/
theorem intersection_vanishes :
    let b : Box := ⟨⟨0, 0, 0⟩, ⟨⟨0x26800000⟩, ⟨0x26800000⟩, ⟨0x26800000⟩⟩⟩
    b.isSolid ∧ b.Overlaps b ∧ b.intersection b = none := by
  intro b
  refine ⟨by decide +kernel, ?_, by decide +kernel⟩
  rw [Overlaps, Axis.forall_iff]
  decide +kernel

/-- A long box vanishes, too, although its volume is `2 ^ -50`: the first two extents are multiplied
first. -/
example :
    let b : Box := ⟨⟨0, 0, 0⟩, ⟨⟨0x1a000000⟩, ⟨0x1a000000⟩, ⟨0x71800000⟩⟩⟩
    b.isSolid ∧ b.intersection b = none := by decide +kernel

end Box
end SortLast
