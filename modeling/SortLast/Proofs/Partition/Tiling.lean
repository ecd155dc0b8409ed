import SortLast.Proofs.Partition.Visibility

/-!
# The boxes of a partition tile its extent

A partition is accepted if all of its boxes are solid. Nothing else is asked of the positions of the
cuts, which come out of rounded arithmetic; but a cut that missed its box would leave an empty or an
infinite box somewhere below it, so solid boxes are enough.

* `Box.Apart`: boxes with a plane between them.
* `Tree.WellCut.position_between`: every cut runs through the interior of the box that it cuts.
* `Tree.WellCut.exists_contains`, `Tree.WellCut.pairwise_apart`: the leaves cover the box of their
  tree, and any two of them are apart.
* `Partition.leaves_tile`: the same of every accepted partition.
-/

namespace SortLast

/-! ### Boxes -/

namespace Box

/-- A plane across some axis separates the two boxes; they may touch it from both sides. -/
def Apart (b c : Box) : Prop := ∃ a : Axis, a.of b.max ≤ a.of c.min ∨ a.of c.max ≤ a.of b.min

instance (b c : Box) : Decidable (b.Apart c) :=
  decidable_of_iff (∃ a ∈ Axis.all, a.of b.max ≤ a.of c.min ∨ a.of c.max ≤ a.of b.min)
    ⟨fun ⟨a, _, h⟩ => ⟨a, h⟩, fun ⟨a, h⟩ => ⟨a, by cases a <;> decide, h⟩⟩

theorem contains_iff {b : Box} {q : Point} :
    b.contains q ↔ ∀ a : Axis, a.of b.min ≤ a.of q ∧ a.of q ≤ a.of b.max := by
  simp only [contains, Bool.and_eq_true, decide_eq_true_eq, Axis.forall_iff]
  simp only [Axis.of]
  tauto

variable {b : Box} {a : Axis} {position : Single} {q : Point}

theorem split_fst_contains (hb : b.contains q) (hq : a.of q ≤ position) :
    (b.split a position).1.contains q := by
  rw [contains_iff] at *
  intro c
  refine ⟨(hb c).1, ?_⟩
  rw [split, Axis.of_put]
  split
  · rename_i hc
    rwa [hc]
  · exact (hb c).2

theorem split_snd_contains (hb : b.contains q) (hq : position ≤ a.of q) :
    (b.split a position).2.contains q := by
  rw [contains_iff] at *
  intro c
  refine ⟨?_, (hb c).2⟩
  rw [split, Axis.of_put]
  split
  · rename_i hc
    rwa [hc]
  · exact (hb c).1

end Box

/-! ### Cut boxes -/

namespace Tree

/-- A tree and the trees below its cuts. -/
def subtrees : Tree → List Tree
  | leaf l => [leaf l]
  | node axis position b lower upper =>
    node axis position b lower upper :: (lower.subtrees ++ upper.subtrees)

theorem WellCut.of_mem_subtrees {t s : Tree} (h : t.WellCut) (hs : s ∈ t.subtrees) : s.WellCut := by
  induction t with
  | leaf l =>
    rw [subtrees, List.mem_singleton] at hs
    rwa [hs]
  | node axis position b lower upper ihl ihu =>
    rw [subtrees, List.mem_cons, List.mem_append] at hs
    obtain ⟨-, -, -, hlower, hupper⟩ := id h
    rcases hs with rfl | hs | hs
    · exact h
    · exact ihl hlower hs
    · exact ihu hupper hs

/-- The box of a tree below a cut lies in the box of the tree above it. -/
theorem WellCut.within_of_mem_subtrees {t s : Tree} (h : t.WellCut) (hs : s ∈ t.subtrees) :
    s.bounds.Within t.bounds := by
  induction t with
  | leaf l =>
    rw [subtrees, List.mem_singleton] at hs
    rw [hs]
    exact Box.Within.refl _
  | node axis position b lower upper ihl ihu =>
    rw [subtrees, List.mem_cons, List.mem_append] at hs
    obtain ⟨hlw, huw⟩ := h.parts_within
    obtain ⟨-, -, -, hlower, hupper⟩ := h
    rcases hs with rfl | hs | hs
    · exact Box.Within.refl _
    · exact (ihl hlower hs).trans hlw
    · exact (ihu hupper hs).trans huw

theorem WellCut.leaf_isSolid {t : Tree} (h : t.WellCut) {l : Leaf} (hl : l ∈ t.leaves) :
    l.bounds.isSolid := by
  induction t with
  | leaf m =>
    rw [leaves, List.mem_singleton] at hl
    rwa [hl]
  | node axis position b lower upper ihl ihu =>
    obtain ⟨-, -, -, hlower, hupper⟩ := h
    rw [leaves, List.mem_append] at hl
    exact hl.elim (ihl hlower) (ihu hupper)

section Cut

variable {axis : Axis} {position : Single} {b : Box} {lower upper : Tree}

/-- The plane of a cut runs strictly inside the box: both of its parts have an extent across it. -/
theorem WellCut.position_between (h : (node axis position b lower upper).WellCut) :
    axis.of b.min < position ∧ position < axis.of b.max := by
  obtain ⟨-, hlb, hub, hlower, hupper⟩ := h
  have hls := hlower.isSolid
  have hus := hupper.isSolid
  rw [hlb, Box.isSolid_iff] at hls
  rw [hub, Box.isSolid_iff] at hus
  constructor
  · have hlt := (hls axis).2.2
    rwa [Box.split_fst_max] at hlt
  · have hlt := (hus axis).2.2
    rwa [Box.split_snd_min] at hlt

/-- A leaf below the plane and one above it are apart. -/
theorem WellCut.apart_of_cut (h : (node axis position b lower upper).WellCut) {l m : Leaf}
    (hl : l ∈ lower.leaves) (hm : m ∈ upper.leaves) : l.bounds.Apart m.bounds := by
  obtain ⟨-, -, -, hlower, hupper⟩ := id h
  have hls := Box.isSolid_iff.1 (hlower.leaf_isSolid hl) axis
  have hms := Box.isSolid_iff.1 (hupper.leaf_isSolid hm) axis
  have hle : (axis.of l.bounds.max).toRat ≤ (axis.of m.bounds.min).toRat :=
    (h.lower_le hl).trans (h.le_upper hm)
  exact ⟨axis, .inl ((Single.le_iff_toRat_le hls.2.1 hms.1).2 hle)⟩

end Cut

/-- Any two leaves are apart: where the ways down to them part, a plane lies between them. -/
theorem WellCut.pairwise_apart {t : Tree} (h : t.WellCut) :
    t.leaves.Pairwise fun l m => l.bounds.Apart m.bounds := by
  induction t with
  | leaf l => exact List.pairwise_singleton _ _
  | node axis position b lower upper ihl ihu =>
    obtain ⟨-, -, -, hlower, hupper⟩ := id h
    rw [leaves, List.pairwise_append]
    exact ⟨ihl hlower, ihu hupper, fun l hl m hm => h.apart_of_cut hl hm⟩

/-- Every point of a box is a point of some leaf: at each cut it lies on one of the two sides. -/
theorem WellCut.exists_contains {t : Tree} (h : t.WellCut) {q : Point} (hq : t.bounds.contains q) :
    ∃ l ∈ t.leaves, l.bounds.contains q := by
  induction t with
  | leaf l => exact ⟨l, List.mem_singleton_self l, hq⟩
  | node axis position b lower upper ihl ihu =>
    have hposition := Single.not_isNaN h.position_isFinite
    have hnumber := (Single.le_iff.1 (Box.contains_iff.1 hq axis).1).2.1
    obtain ⟨-, hlb, hub, hlower, hupper⟩ := h
    rw [leaves]
    rcases Single.le_or_le hnumber hposition with hle | hle
    · obtain ⟨l, hl, hlq⟩ := ihl hlower (by rw [hlb]; exact Box.split_fst_contains hq hle)
      exact ⟨l, List.mem_append_left _ hl, hlq⟩
    · obtain ⟨l, hl, hlq⟩ := ihu hupper (by rw [hub]; exact Box.split_snd_contains hq hle)
      exact ⟨l, List.mem_append_right _ hl, hlq⟩

/-- A leaf lies in the box of its tree, as its coordinates are compared. -/
theorem WellCut.leaf_le {t : Tree} (h : t.WellCut) {l : Leaf} (hl : l ∈ t.leaves) (a : Axis) :
    a.of t.bounds.min ≤ a.of l.bounds.min ∧ a.of l.bounds.max ≤ a.of t.bounds.max := by
  have ht := Box.isSolid_iff.1 h.isSolid a
  have hs := Box.isSolid_iff.1 (h.leaf_isSolid hl) a
  have hw := h.leaf_within hl a
  exact ⟨(Single.le_iff_toRat_le ht.1 hs.1).2 hw.1, (Single.le_iff_toRat_le hs.2.1 ht.2.1).2 hw.2⟩

end Tree

/-! ### Partitions -/

namespace Partition

/-- The boxes of an accepted partition tile its extent. Each of them is solid and lies in the extent;
every point of the extent lies in one of them; any two of them are apart; and every cut runs strictly
inside the box that it cuts, whatever was rounded on the way to its position. -/
theorem leaves_tile {extent : Box} {weights : List Single} {p : Partition}
    (h : ofWeights extent weights = .ok p) :
    (∀ l ∈ p.leaves, l.bounds.isSolid ∧ ∀ a : Axis,
      a.of extent.min ≤ a.of l.bounds.min ∧ a.of l.bounds.max ≤ a.of extent.max) ∧
    (∀ q, extent.contains q → ∃ l ∈ p.leaves, l.bounds.contains q) ∧
    (p.leaves.Pairwise fun l m => l.bounds.Apart m.bounds) ∧
    ∀ axis position b lower upper, .node axis position b lower upper ∈ p.root.subtrees →
      axis.of b.min < position ∧ position < axis.of b.max := by
  obtain ⟨hne, hd⟩ := divide_of_ofWeights h
  obtain ⟨hcut, hbounds, -⟩ := Tree.divide_ok hne hd
  refine ⟨?_, ?_, hcut.pairwise_apart, ?_⟩
  · intro l hl
    refine ⟨hcut.leaf_isSolid hl, fun a => ?_⟩
    have hle := hcut.leaf_le hl a
    rwa [hbounds] at hle
  · intro q hq
    exact hcut.exists_contains (by rwa [hbounds])
  · intro axis position b lower upper hmem
    exact (hcut.of_mem_subtrees hmem).position_between

/-- A cube cut at a third, which is no scalar: the rounded cut still leaves no point uncovered. -/
theorem leaves_tile_third :
    ∃ p, ofWeights ⟨Vec3.zero, ⟨1, 1, 1⟩⟩ [1, 2] = .ok p ∧
      (∀ l ∈ p.leaves, l.bounds.isSolid) ∧
      (∀ q, Box.contains ⟨Vec3.zero, ⟨1, 1, 1⟩⟩ q → ∃ l ∈ p.leaves, l.bounds.contains q) ∧
      (p.leaves.Pairwise fun l m => l.bounds.Apart m.bounds) := by
  let third : Single := 1 / 3
  let lower : Leaf := ⟨0, Vec3.zero, ⟨third, 1, 1⟩⟩
  let upper : Leaf := ⟨1, ⟨third, 0, 0⟩, ⟨1, 1, 1⟩⟩
  let p : Partition := ⟨.node .x third ⟨Vec3.zero, ⟨1, 1, 1⟩⟩ (.leaf lower) (.leaf upper)⟩
  have hp : ofWeights ⟨Vec3.zero, ⟨1, 1, 1⟩⟩ [1, 2] = .ok p := by decide +kernel
  obtain ⟨hsolid, hcover, hapart, -⟩ := leaves_tile hp
  exact ⟨p, hp, fun l hl => (hsolid l hl).1, hcover, hapart⟩

end Partition
end SortLast
