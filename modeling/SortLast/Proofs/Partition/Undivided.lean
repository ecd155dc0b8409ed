import SortLast.Proofs.Partition.Bricks

/-!
# Leaves as bricks

Without a largest brick every leaf is a single brick. It still goes through the arithmetic of a grid: its
lower corner is the lower corner of the leaf plus nothing of the size. That is the corner again unless
the size is infinite, and an extent is only accepted with an infinite size if nobody shares it.

* `Box.isFinite_size_of_longest`: the longest axis tells whether a size is finite.
* `Partition.size_isFinite_iff`: the sizes of extent and leaves are finite together.
* `LeafGrid.undivided_sameValue_iff`: when the brick is the leaf.
* `Partition.single_distribution`: the bricks that participants are handed.
-/

namespace SortLast

/-! ### Sizes -/

/-- The result for a positive value is finite unless it is the upper infinity. -/
theorem Single.Rounded.isFinite_iff_key {q : Rat} {x : Single} (h : Rounded q x) (hq : 0 < q) :
    x.isFinite ↔ x.key < 0x7f800000 := by
  have hlimit := Format.binary32.limit_pos
  cases h with
  | finite hfin =>
    have hlt : x.magnitude < 0x7f800000 := of_decide_eq_true hfin
    refine iff_of_true hfin ?_
    unfold key
    split <;> omega
  | top htop =>
    rw [htop]
    decide
  | bottom _ hbig => linarith

namespace Box

variable {b : Box}

theorem size_rounded (hb : b.isSolid) (a : Axis) :
    0 < (a.of b.max).toRat - (a.of b.min).toRat ∧
      Single.Rounded ((a.of b.max).toRat - (a.of b.min).toRat) (a.of b.size) := by
  obtain ⟨hmin, hmax, hlt⟩ := isSolid_iff.1 hb a
  rw [of_size]
  exact ⟨sub_pos.2 ((Single.lt_iff_toRat_lt hmin hmax).1 hlt), Single.sub_rounded hmax hmin⟩

/-- The best of some axes is as long as each of them. -/
theorem key_le_foldl {s : Point} (hs : ∀ a : Axis, (a.of s).isNaN = false) (axes : List Axis)
    (best : Axis) : ∀ a ∈ best :: axes, (a.of s).key ≤
      ((axes.foldl (fun best a => if best.of s < a.of s then a else best) best).of s).key := by
  induction axes generalizing best with
  | nil => simp
  | cons c axes ih =>
    have hlt : best.of s < c.of s ↔ (best.of s).key < (c.of s).key := by
      simp [Single.lt_iff, hs]
    have hnext := ih (if best.of s < c.of s then c else best)
    rw [List.forall_mem_cons] at hnext
    rw [List.foldl_cons, List.forall_mem_cons, List.forall_mem_cons]
    refine ⟨?_, ?_, hnext.2⟩
    · refine le_trans ?_ hnext.1
      split
      · rename_i h
        exact (hlt.1 h).le
      · exact le_rfl
    · refine le_trans ?_ hnext.1
      split
      · exact le_rfl
      · rename_i h
        exact not_lt.1 fun hkey => h (hlt.2 hkey)

/-- No axis is longer than the longest one. -/
theorem key_size_le_longest (hb : b.isSolid) (a : Axis) :
    (a.of b.size).key ≤ (b.longestAxis.of b.size).key :=
  key_le_foldl (fun c => (size_rounded hb c).2.isNaN) [.y, .z] .x a (by cases a <;> decide)

theorem isFinite_size_of_longest (hb : b.isSolid) (h : (b.longestAxis.of b.size).isFinite) :
    b.size.isFinite := by
  refine Vec3.isFinite_iff.2 fun a => ?_
  obtain ⟨hpos, hround⟩ := size_rounded hb a
  obtain ⟨hpos', hround'⟩ := size_rounded hb b.longestAxis
  rw [hround.isFinite_iff_key hpos]
  rw [hround'.isFinite_iff_key hpos'] at h
  exact (key_size_le_longest hb a).trans_lt h

/-- A box in one of finite size has a finite size. -/
theorem isFinite_size_of_within {c : Box} (hb : b.isSolid) (hc : c.isSolid) (hbc : b.Within c)
    (h : c.size.isFinite) : b.size.isFinite := by
  rw [Vec3.isFinite_iff] at *
  intro a
  obtain ⟨hpos, hround⟩ := size_rounded hb a
  obtain ⟨hpos', hround'⟩ := size_rounded hc a
  have hlimit := hround'.isFinite_iff.1 (h a)
  rw [hround.isFinite_iff]
  rw [abs_of_pos hpos'] at hlimit
  rw [abs_of_pos hpos]
  have hmin := (hbc a).1
  have hmax := (hbc a).2
  linarith

end Box

namespace Tree

/-- A box of infinite size cannot be cut: the plane would be infinite, too. -/
theorem WellCut.isFinite_size {b : Box} {fraction : Single} {lower upper : Tree}
    (h : (node b.longestAxis (cutPosition b b.longestAxis fraction) b lower upper).WellCut) :
    b.size.isFinite := by
  refine Box.isFinite_size_of_longest h.isSolid (by_contra fun hsize => ?_)
  exact Single.add_not_isFinite _ (Single.mul_not_isFinite hsize fraction) h.position_isFinite

end Tree

namespace Partition

variable {extent : Box} {weights : List Single} {p : Partition} {l : Leaf}

/-- The extent of several participants has a finite size. -/
theorem isFinite_size_of_shared (h : ofWeights extent weights = .ok p)
    (hgt : ¬ weights.length ≤ 1) : extent.size.isFinite := by
  obtain ⟨hne, hd⟩ := divide_of_ofWeights h
  have hcut := (Tree.divide_ok hne hd).1
  obtain ⟨hle, -⟩ | ⟨-, position, lower, upper, rfl, hroot, -⟩ := Tree.divide_cases hd
  · exact absurd hle hgt
  · rw [hroot] at hcut
    exact hcut.isFinite_size

/-- The sizes of an extent and of its leaves are finite together. -/
theorem size_isFinite_iff (h : ofWeights extent weights = .ok p) (hl : l ∈ p.leaves) :
    l.bounds.size.isFinite ↔ extent.size.isFinite := by
  obtain ⟨hne, hd⟩ := divide_of_ofWeights h
  obtain ⟨hcut, hbounds, -⟩ := Tree.divide_ok hne hd
  obtain ⟨-, -, hroot⟩ | ⟨hgt, -⟩ := Tree.divide_cases hd
  · rw [leaves, hroot, Tree.leaves, List.mem_singleton] at hl
    rw [hl]
  · have hextent := isFinite_size_of_shared h (by omega)
    have hwithin := hcut.leaf_within hl
    have hsolid := hcut.isSolid
    rw [hbounds] at hwithin hsolid
    exact iff_of_true (Box.isFinite_size_of_within (hcut.leaf_isSolid hl) hsolid hwithin hextent)
      hextent

end Partition

/-! ### Bricks -/

namespace LeafGrid

/-- A leaf that is not cut. -/
def undivided (l : Leaf) : LeafGrid := ⟨l, ⟨1, 1, 1⟩⟩

/-- The brick of a leaf that is not cut. -/
def whole (l : Leaf) (frame : UInt32) : Brick :=
  ⟨(undivided l).cellBounds ⟨0, 0, 0⟩, UInt64.ofNat l.participant, frame⟩

theorem undivided_bricks (l : Leaf) (frame : UInt32) : (undivided l).bricks frame = [whole l frame] :=
  rfl

/-- The upper corner is that of the leaf, and the lower one is its value unless the size is infinite. -/
theorem whole_sameValue_iff {l : Leaf} (hl : l.bounds.isSolid) (frame : UInt32) :
    (whole l frame).bounds.max = l.bounds.max ∧
      ((whole l frame).bounds.SameValue l.bounds ↔ l.bounds.size.isFinite) := by
  refine ⟨rfl, ?_⟩
  have hfin := Box.IsFinite.of_isSolid hl
  have hone : ∀ a : Axis, a.of (undivided l).cells = 1 := by
    intro a
    cases a <;> rfl
  have hzero : ∀ a : Axis, a.of (⟨0, 0, 0⟩ : Vec3 Nat) = 0 := by
    intro a
    cases a <;> rfl
  have hmin : ∀ a : Axis, a.of (whole l frame).bounds.min =
      GridAxis.line (a.of l.bounds.min) (a.of l.bounds.max) 1 0 := by
    intro a
    rw [whole, of_cellBounds_min, hone, hzero]
    rfl
  have hmax : ∀ a : Axis, a.of (whole l frame).bounds.max = a.of l.bounds.max := fun a => rfl
  rw [Vec3.isFinite_iff]
  refine forall_congr' fun a => ?_
  rw [hmax, hmin, Box.of_size]
  constructor
  · rintro ⟨hsame, -⟩
    refine by_contra fun hsize => ?_
    have hline := Single.isFinite_of_sameValue hsame (hfin a).1
    rw [GridAxis.line_of_lt Nat.one_pos] at hline
    exact Single.add_not_isFinite _ (Single.mul_not_isFinite hsize _) hline
  · intro hsize
    obtain ⟨hmin, hmax, hlt⟩ := Box.isSolid_iff.1 hl a
    have haxis : GridAxis (a.of l.bounds.min) (a.of l.bounds.max) 1 :=
      ⟨hmin, hmax, (Single.lt_iff_toRat_lt hmin hmax).1 hlt, hsize, Nat.one_pos, by decide⟩
    have hline := (haxis.line_between (Nat.zero_le 1)).1
    exact ⟨(Single.sameValue_iff hline hmin).2 haxis.line_zero,
      (Single.sameValue_iff hmax hmax).2 rfl⟩

end LeafGrid

namespace BrickLayout

/-- Without a largest brick a distribution cannot fail. -/
theorem single_distribution_eq (p : Partition) (frames : UInt32) :
    single.distribution p frames =
      .ok (p.leaves.map fun l => (LeafGrid.undivided l).schedule frames) := by
  unfold distribution
  split
  · rename_i hzero
    rw [hzero]
    rfl
  · have hcut : single.cutAll p = .ok (p.leaves.map LeafGrid.undivided) := List.mapM_pure
    rw [hcut]
    exact congrArg Except.ok (List.map_map ..)

end BrickLayout

namespace Partition

variable {extent : Box} {weights : List Single} {p : Partition}

/-- Without a largest brick every participant gets one brick for each time step, with its number and that
of the step. The brick is the leaf, as numbers, if and only if the size of the extent is finite, and that
is so whenever several participants share the extent. -/
theorem single_distribution (h : ofWeights extent weights = .ok p) (frames : UInt32) :
    (weights.length ≠ 1 → extent.size.isFinite) ∧
    ∃ lists, BrickLayout.single.distribution p frames = .ok lists ∧
      lists.length = p.leaves.length ∧
      ∀ i l, p.leaves[i]? = some l → ∃ steps, lists[i]? = some steps ∧
        steps.length = frames.toNat ∧
        ∀ t < frames.toNat, ∃ b, steps[t]? = some [b] ∧ b.participant = UInt64.ofNat i ∧
          b.frame.toNat = t ∧ b.bounds.max = l.bounds.max ∧
          (b.bounds.SameValue l.bounds ↔ extent.size.isFinite) := by
  constructor
  · intro hne
    have hpos := List.length_pos_iff.2 (divide_of_ofWeights h).1
    exact isFinite_size_of_shared h (by omega)
  refine ⟨_, BrickLayout.single_distribution_eq p frames, List.length_map _, fun i l hl => ?_⟩
  have hmem := List.mem_of_getElem? hl
  have hsolid := ((leaves_tile h).1 l hmem).1
  refine ⟨(LeafGrid.undivided l).schedule frames, by rw [List.getElem?_map, hl, Option.map_some],
    by rw [LeafGrid.schedule, List.length_map, List.length_range], fun t ht => ?_⟩
  obtain ⟨hmax, hsame⟩ := LeafGrid.whole_sameValue_iff hsolid (UInt32.ofNat t)
  refine ⟨LeafGrid.whole l (UInt32.ofNat t), ?_, ?_, ?_, hmax, hsame.trans (size_isFinite_iff h hmem)⟩
  · rw [LeafGrid.schedule, List.getElem?_map, List.getElem?_range ht, Option.map_some,
      LeafGrid.undivided_bricks]
  · rw [LeafGrid.whole, participant_of_getElem? h hl]
  · exact UInt32.toNat_ofNat_of_lt' (ht.trans frames.toNat_lt)

/-- An extent of finite corners and infinite size: the lower corner of the brick is not a number. -/
theorem single_distribution_overflow :
    ∃ p l b, ofWeights ⟨⟨⟨0xff61b1e6⟩, 0, 0⟩, ⟨⟨0x7f61b1e6⟩, 1, 1⟩⟩ [1] = .ok p ∧
      p.leaves[0]? = some l ∧ BrickLayout.single.distribution p 1 = .ok [[[b]]] ∧
      b.bounds.min.x.isNaN ∧ ¬ b.bounds.SameValue l.bounds := by
  let l : Leaf := ⟨0, ⟨⟨⟨0xff61b1e6⟩, 0, 0⟩, ⟨⟨0x7f61b1e6⟩, 1, 1⟩⟩⟩
  exact ⟨⟨.leaf l⟩, l, LeafGrid.whole l 0, by decide +kernel, rfl, by decide +kernel,
    by decide +kernel, by decide +kernel⟩

/-- A cube cut at a third, handed out as it is. -/
theorem single_distribution_third : ∃ p lists,
    ofWeights ⟨Vec3.zero, ⟨1, 1, 1⟩⟩ [1, 2] = .ok p ∧
      BrickLayout.single.distribution p 3 = .ok lists ∧ lists.length = p.leaves.length ∧
      ∀ i l, p.leaves[i]? = some l → ∃ steps, lists[i]? = some steps ∧
        ∀ t < 3, ∃ b, steps[t]? = some [b] ∧ b.participant = UInt64.ofNat i ∧
          b.bounds.SameValue l.bounds := by
  let third : Single := 1 / 3
  let p : Partition := ⟨.node .x third ⟨Vec3.zero, ⟨1, 1, 1⟩⟩
    (.leaf ⟨0, Vec3.zero, ⟨third, 1, 1⟩⟩) (.leaf ⟨1, ⟨third, 0, 0⟩, ⟨1, 1, 1⟩⟩)⟩
  have hp : ofWeights ⟨Vec3.zero, ⟨1, 1, 1⟩⟩ [1, 2] = .ok p := by decide +kernel
  obtain ⟨hfinite, lists, hlists, hlength, hall⟩ := single_distribution hp 3
  refine ⟨p, lists, hp, hlists, hlength, fun i l hl => ?_⟩
  obtain ⟨steps, hsteps, -, hbricks⟩ := hall i l hl
  refine ⟨steps, hsteps, fun t ht => ?_⟩
  obtain ⟨b, hb, hname, -, -, hsame⟩ := hbricks t ht
  exact ⟨b, hb, hname, hsame.2 (hfinite (by decide))⟩

end Partition
end SortLast
