import SortLast.Proofs.Partition.Grid

/-!
# Bricks of a partition

The bricks of a leaf are the cells of a grid whose lines are rounded. They cover the leaf and are apart,
since the lines are in order and the outer ones are the faces of the leaf. Neighbouring lines may round
to one scalar, though, which leaves a flat brick between them, and a brick may come out larger than the
layout allows; both happen where a brick is small against the distance of its leaf from the origin, and
only there.

* `Box.SameValue`, `Box.fold_merge`: boxes that agree as numbers, and the box around some boxes.
* `LeafGrid.Regular`: grids as `withMaxExtent` layouts make them of solid leaves.
* `Partition.bricks_tile`: in which sense bricks tile their leaf.
* `Partition.bricks_fit`: how large bricks are.
* `Partition.single_distribution`: the layout without a largest brick hands out the leaves, if the size
  of the extent is finite.
-/

namespace SortLast

/-! ### Boxes -/

namespace Box

/-- Both corners are finite. -/
def IsFinite (b : Box) : Prop := ∀ a : Axis, (a.of b.min).isFinite ∧ (a.of b.max).isFinite

/-- The same corners, as numbers. -/
def SameValue (b c : Box) : Prop :=
  ∀ a : Axis, (a.of b.min).sameValue (a.of c.min) ∧ (a.of b.max).sameValue (a.of c.max)

instance (b c : Box) : Decidable (b.SameValue c) :=
  decidable_of_iff
    (∀ a ∈ Axis.all, (a.of b.min).sameValue (a.of c.min) ∧ (a.of b.max).sameValue (a.of c.max))
    ⟨fun h a => h a (by cases a <;> decide), fun h a _ => h a⟩

theorem sameValue_iff {b c : Box} (hb : b.IsFinite) (hc : c.IsFinite) : b.SameValue c ↔
    ∀ a : Axis, (a.of b.min).toRat = (a.of c.min).toRat ∧ (a.of b.max).toRat = (a.of c.max).toRat :=
  forall_congr' fun a => and_congr (Single.sameValue_iff (hb a).1 (hc a).1)
    (Single.sameValue_iff (hb a).2 (hc a).2)

theorem IsFinite.of_isSolid {b : Box} (h : b.isSolid) : b.IsFinite :=
  fun a => ⟨(isSolid_iff.1 h a).1, (isSolid_iff.1 h a).2.1⟩

theorem of_merge_min (b c : Box) (a : Axis) :
    a.of (b.merge c).min = (a.of b.min).min (a.of c.min) := by cases a <;> rfl

theorem of_merge_max (b c : Box) (a : Axis) :
    a.of (b.merge c).max = (a.of b.max).max (a.of c.max) := by cases a <;> rfl

theorem of_size (b : Box) (a : Axis) : a.of b.size = a.of b.max - a.of b.min := by cases a <;> rfl

section Merge

variable {b c d : Box} (hb : b.IsFinite) (hc : c.IsFinite)

include hb hc

theorem IsFinite.merge : (b.merge c).IsFinite := by
  intro a
  rw [of_merge_min, of_merge_max]
  exact ⟨(Single.min_finite (hb a).1 (hc a).1).1, (Single.max_finite (hb a).2 (hc a).2).1⟩

theorem within_merge_left : b.Within (b.merge c) := by
  intro a
  rw [of_merge_min, of_merge_max, (Single.min_finite (hb a).1 (hc a).1).2,
    (Single.max_finite (hb a).2 (hc a).2).2]
  exact ⟨min_le_left _ _, le_max_left _ _⟩

theorem within_merge_right : c.Within (b.merge c) := by
  intro a
  rw [of_merge_min, of_merge_max, (Single.min_finite (hb a).1 (hc a).1).2,
    (Single.max_finite (hb a).2 (hc a).2).2]
  exact ⟨min_le_right _ _, le_max_right _ _⟩

theorem merge_within (hbd : b.Within d) (hcd : c.Within d) : (b.merge c).Within d := by
  intro a
  rw [of_merge_min, of_merge_max, (Single.min_finite (hb a).1 (hc a).1).2,
    (Single.max_finite (hb a).2 (hc a).2).2]
  exact ⟨le_min (hbd a).1 (hcd a).1, max_le (hbd a).2 (hcd a).2⟩

end Merge

/-- Merging boxes gives the smallest box around them. -/
theorem fold_merge {d : Box} (boxes : List Box) {b : Box} (hb : b.IsFinite) (hbd : b.Within d)
    (hboxes : ∀ c ∈ boxes, c.IsFinite ∧ c.Within d) :
    (boxes.foldl merge b).IsFinite ∧ (boxes.foldl merge b).Within d ∧
      b.Within (boxes.foldl merge b) ∧ ∀ c ∈ boxes, c.Within (boxes.foldl merge b) := by
  induction boxes generalizing b with
  | nil => exact ⟨hb, hbd, Within.refl b, fun c hc => nomatch hc⟩
  | cons c boxes ih =>
    obtain ⟨hc, hcd⟩ := hboxes c List.mem_cons_self
    obtain ⟨hfin, hwithin, hfirst, hrest⟩ := ih (hb.merge hc) (merge_within hb hc hbd hcd)
      fun e he => hboxes e (List.mem_cons_of_mem _ he)
    refine ⟨hfin, hwithin, (within_merge_left hb hc).trans hfirst, ?_⟩
    rw [List.forall_mem_cons]
    exact ⟨(within_merge_right hb hc).trans hfirst, hrest⟩

end Box

/-! ### Grids -/

namespace BrickLayout

theorem edge_eq_line (b : Box) (a : Axis) (n i : Nat) :
    edge b a n i = GridAxis.line (a.of b.min) (a.of b.max) n i := by
  rw [edge, Box.of_size]
  rfl

theorem of_corner (b : Box) (cells lines : Vec3 Nat) (a : Axis) :
    a.of (corner b cells lines) = edge b a (a.of cells) (a.of lines) := by cases a <;> rfl

theorem mem_cellsOf {cells c : Vec3 Nat} : c ∈ cellsOf cells ↔ ∀ a : Axis, a.of c < a.of cells := by
  simp only [cellsOf, List.mem_flatMap, List.mem_map, List.mem_range, Axis.forall_iff]
  constructor
  · rintro ⟨z, hz, y, hy, x, hx, rfl⟩
    exact ⟨hx, hy, hz⟩
  · rintro ⟨hx, hy, hz⟩
    exact ⟨c.z, hz, c.y, hy, c.x, hx, rfl⟩

theorem nodup_cellsOf (cells : Vec3 Nat) : (cellsOf cells).Nodup := by
  refine List.nodup_flatMap.2 ⟨fun z _ => List.nodup_flatMap.2 ⟨fun y _ => ?_, ?_⟩, ?_⟩
  · exact List.Nodup.map (fun x x' hx => congrArg Vec3.x hx) List.nodup_range
  · refine List.nodup_range.imp fun hne => ?_
    simp only [Function.onFun, List.disjoint_left, List.mem_map]
    rintro _ ⟨x, -, rfl⟩ ⟨x', -, heq⟩
    exact hne (congrArg Vec3.y heq).symm
  · refine List.nodup_range.imp fun hne => ?_
    simp only [Function.onFun, List.disjoint_left, List.mem_flatMap, List.mem_map]
    rintro _ ⟨y, -, x, -, rfl⟩ ⟨y', -, x', -, heq⟩
    exact hne (congrArg Vec3.z heq).symm

variable {m size : Point} {layout : BrickLayout} {cells : Vec3 Nat}

/-- A layout with a largest brick has a finite, positive one. -/
theorem withMaxExtent_ok (h : withMaxExtent m = .ok layout) :
    layout = ⟨some m⟩ ∧ ∀ a : Axis, (a.of m).isFinite ∧ 0 < (a.of m).toRat := by
  obtain ⟨hf0, hv0⟩ := Single.toRat_ofNat (n := 0) (by decide)
  unfold withMaxExtent at h
  split at h
  · cases h
  · rename_i hcheck
    rw [Bool.or_eq_true, not_or, Bool.not_eq_true', Bool.not_eq_false] at hcheck
    obtain ⟨hfin, hany⟩ := hcheck
    rw [Vec3.isFinite_iff] at hfin
    have hpos : ∀ a : Axis, ¬ a.of m ≤ 0 := by
      rw [Axis.forall_iff]
      simpa [Vec3.any, not_or, and_assoc, Axis.of] using hany
    cases h
    refine ⟨rfl, fun a => ⟨hfin a, ?_⟩⟩
    have hle := (Single.le_iff_toRat_le (hfin a) hf0).not.1 (hpos a)
    rwa [hv0, Nat.cast_zero, not_le] at hle

theorem grid_ok (h : (⟨some m⟩ : BrickLayout).grid size = .ok cells) (a : Axis) :
    cellsAlong (a.of size) (a.of m) = some (a.of cells) ∧ a.of cells ≤ 65536 := by
  unfold grid at h
  simp only at h
  split at h
  · rename_i x y z hx hy hz
    split at h
    · cases h
    · rename_i hcount
      cases h
      have hx0 := cellsAlong_pos hx
      have hy0 := cellsAlong_pos hy
      have hz0 := cellsAlong_pos hz
      have hle : x * y * z ≤ 65536 := not_lt.1 hcount
      have hxy : x * y ≤ x * y * z := Nat.le_mul_of_pos_right _ hz0
      cases a with
      | x => exact ⟨hx, (Nat.le_mul_of_pos_right x hy0).trans (hxy.trans hle)⟩
      | y => exact ⟨hy, (Nat.le_mul_of_pos_left y hx0).trans (hxy.trans hle)⟩
      | z => exact ⟨hz, (Nat.le_mul_of_pos_left z (Nat.mul_pos hx0 hy0)).trans hle⟩
  · cases h

end BrickLayout

namespace LeafGrid

open GridAxis (line)

/-- Every axis of the leaf is cut into so many cells as its rounded length needs. -/
structure Regular (g : LeafGrid) (m : Point) : Prop where
  axis : ∀ a : Axis, GridAxis (a.of g.leaf.bounds.min) (a.of g.leaf.bounds.max) (a.of g.cells)
  count : ∀ a : Axis, (a.of g.leaf.bounds.size).toRat ≤ a.of g.cells * (a.of m).toRat

/-- Layouts with a largest brick cut a solid leaf regularly. A leaf of infinite size is not cut. -/
theorem regular_of_cut {m : Point} {layout : BrickLayout} {l : Leaf} {g : LeafGrid}
    (hm : BrickLayout.withMaxExtent m = .ok layout) (hl : l.bounds.isSolid)
    (h : layout.cut l = .ok g) : g.leaf = l ∧ g.Regular m := by
  obtain ⟨rfl, hpos⟩ := BrickLayout.withMaxExtent_ok hm
  have haxis : ∀ {cells : Vec3 Nat}, (⟨some m⟩ : BrickLayout).grid l.bounds.size = .ok cells →
      ∀ a : Axis, GridAxis (a.of l.bounds.min) (a.of l.bounds.max) (a.of cells) ∧
        (a.of l.bounds.size).toRat ≤ a.of cells * (a.of m).toRat := by
    intro cells hgrid a
    obtain ⟨hcells, hle⟩ := BrickLayout.grid_ok hgrid a
    obtain ⟨hmin, hmax, hlt⟩ := Box.isSolid_iff.1 hl a
    have hlt' := (Single.lt_iff_toRat_lt hmin hmax).1 hlt
    rw [Box.of_size] at hcells ⊢
    have hfin : (a.of l.bounds.max - a.of l.bounds.min).isFinite := by
      cases Single.sub_rounded hmax hmin with
      | finite hfin => exact hfin
      | top htop =>
        rw [htop, BrickLayout.cellsAlong_infinity (hpos a).1 (hpos a).2] at hcells
        cases hcells
      | bottom _ hlimit =>
        have := Format.binary32.limit_pos
        linarith
    have hg : GridAxis (a.of l.bounds.min) (a.of l.bounds.max) (a.of cells) :=
      ⟨hmin, hmax, hlt', hfin, BrickLayout.cellsAlong_pos hcells, hle⟩
    exact ⟨hg, BrickLayout.cellsAlong_ok hfin hg.length_pos.le (hpos a).1 (hpos a).2 hcells hle⟩
  unfold BrickLayout.cut at h
  cases hgrid : (⟨some m⟩ : BrickLayout).grid l.bounds.size with
  | error e => rw [hgrid] at h; cases h
  | ok cells =>
    rw [hgrid] at h
    cases h
    exact ⟨rfl, fun a => (haxis hgrid a).1, fun a => (haxis hgrid a).2⟩

theorem of_cellBounds_min (g : LeafGrid) (c : Vec3 Nat) (a : Axis) :
    a.of (g.cellBounds c).min =
      line (a.of g.leaf.bounds.min) (a.of g.leaf.bounds.max) (a.of g.cells) (a.of c) := by
  rw [cellBounds, BrickLayout.of_corner, BrickLayout.edge_eq_line]

theorem of_cellBounds_max (g : LeafGrid) (c : Vec3 Nat) (a : Axis) :
    a.of (g.cellBounds c).max =
      line (a.of g.leaf.bounds.min) (a.of g.leaf.bounds.max) (a.of g.cells) (a.of c + 1) := by
  rw [cellBounds, BrickLayout.of_corner, BrickLayout.edge_eq_line]
  cases a <;> rfl

theorem mem_bricks {g : LeafGrid} {frame : UInt32} {b : Brick} : b ∈ g.bricks frame ↔
    ∃ c, (∀ a : Axis, a.of c < a.of g.cells) ∧
      b = ⟨g.cellBounds c, UInt64.ofNat g.leaf.participant, frame⟩ := by
  simp only [bricks, List.mem_map, BrickLayout.mem_cellsOf, eq_comm]

section Regular

variable {g : LeafGrid} {c d : Vec3 Nat}
  (h : ∀ a : Axis, GridAxis (a.of g.leaf.bounds.min) (a.of g.leaf.bounds.max) (a.of g.cells))

include h

theorem cellBounds_isFinite (hc : ∀ a : Axis, a.of c < a.of g.cells) : (g.cellBounds c).IsFinite := by
  intro a
  rw [of_cellBounds_min, of_cellBounds_max]
  exact ⟨((h a).line_between (hc a).le).1, ((h a).line_between (hc a)).1⟩

theorem cellBounds_within (hc : ∀ a : Axis, a.of c < a.of g.cells) :
    (g.cellBounds c).Within g.leaf.bounds := by
  intro a
  rw [of_cellBounds_min, of_cellBounds_max]
  exact ⟨((h a).line_between (hc a).le).2.1, ((h a).line_between (hc a)).2.2⟩

/-- Different cells have a line between them. -/
theorem cellBounds_apart (hc : ∀ a : Axis, a.of c < a.of g.cells)
    (hd : ∀ a : Axis, a.of d < a.of g.cells) (hne : c ≠ d) :
    (g.cellBounds c).Apart (g.cellBounds d) := by
  obtain ⟨a, ha⟩ : ∃ a : Axis, a.of c ≠ a.of d := by
    by_contra hall
    rw [not_exists] at hall
    have heq := Axis.forall_iff.1 fun a => not_not.1 (hall a)
    cases c
    cases d
    simp_all [Axis.of]
  have hfc := cellBounds_isFinite h hc a
  have hfd := cellBounds_isFinite h hd a
  refine ⟨a, ?_⟩
  rcases Nat.lt_or_gt_of_ne ha with hlt | hgt
  · left
    rw [Single.le_iff_toRat_le hfc.2 hfd.1, of_cellBounds_max, of_cellBounds_min]
    exact (h a).line_le hlt (hd a).le
  · right
    rw [Single.le_iff_toRat_le hfd.2 hfc.1, of_cellBounds_max, of_cellBounds_min]
    exact (h a).line_le hgt (hc a).le

/-- Every point of the leaf is a point of a cell. -/
theorem exists_holds {K : Type} [Field K] [LinearOrder K] [IsStrictOrderedRing K] {q : Vec3 K}
    (hq : g.leaf.bounds.Holds q) :
    ∃ c, (∀ a : Axis, a.of c < a.of g.cells) ∧ (g.cellBounds c).Holds q := by
  have hcell := fun a => (h a).exists_cell (hq a).1 (hq a).2
  choose i hi hlo hhi using hcell
  have hof : ∀ a : Axis, a.of (⟨i .x, i .y, i .z⟩ : Vec3 Nat) = i a := by
    intro a
    cases a <;> rfl
  refine ⟨⟨i .x, i .y, i .z⟩, fun a => ?_, fun a => ?_⟩
  · rw [hof]
    exact hi a
  · rw [of_cellBounds_min, of_cellBounds_max, hof]
    exact ⟨hlo a, hhi a⟩

/-- Merging all cells, from any of them on, gives the leaf: the outer cells end at its faces. -/
theorem fold_merge_cellBounds {boxes : List Box}
    (hmem : ∀ b, b ∈ boxes ↔ ∃ c, (∀ a : Axis, a.of c < a.of g.cells) ∧ b = g.cellBounds c)
    {b : Box} (hb : b ∈ boxes) : (boxes.foldl Box.merge b).SameValue g.leaf.bounds := by
  have hcell : ∀ b ∈ boxes, b.IsFinite ∧ b.Within g.leaf.bounds := by
    intro b hb
    obtain ⟨c, hc, rfl⟩ := (hmem b).1 hb
    exact ⟨cellBounds_isFinite h hc, cellBounds_within h hc⟩
  obtain ⟨hfin, hwithin, -, hall⟩ := Box.fold_merge boxes (hcell b hb).1 (hcell b hb).2 hcell
  have hlower : ∀ a : Axis, a.of (⟨0, 0, 0⟩ : Vec3 Nat) = 0 := by
    intro a
    cases a <;> rfl
  have hupper : ∀ a : Axis, a.of (⟨g.cells.x - 1, g.cells.y - 1, g.cells.z - 1⟩ : Vec3 Nat) =
      a.of g.cells - 1 := by
    intro a
    cases a <;> rfl
  have hfirst := hall _ ((hmem _).2 ⟨⟨0, 0, 0⟩, fun a => by rw [hlower]; exact (h a).pos, rfl⟩)
  have hlast := hall _ ((hmem _).2 ⟨⟨g.cells.x - 1, g.cells.y - 1, g.cells.z - 1⟩,
    fun a => by rw [hupper]; exact Nat.sub_lt (h a).pos Nat.one_pos, rfl⟩)
  refine (Box.sameValue_iff hfin fun a => ⟨(h a).min_isFinite, (h a).max_isFinite⟩).2 fun a => ?_
  have hmin := (hfirst a).1
  have hmax := (hlast a).2
  rw [of_cellBounds_min, hlower, (h a).line_zero] at hmin
  rw [of_cellBounds_max, hupper, Nat.sub_add_cancel (h a).pos, GridAxis.line_last] at hmax
  exact ⟨hmin.antisymm (hwithin a).1, (hwithin a).2.antisymm hmax⟩

end Regular

end LeafGrid

/-! ### Bricks of a leaf -/

/-- The bricks belong to a leaf at a time step, lie in it, are apart, and are all of it. -/
structure Leaf.TiledBy (l : Leaf) (frame : UInt32) (bricks : List Brick) : Prop where
  nonempty : bricks ≠ []
  tagged : ∀ b ∈ bricks, b.participant = UInt64.ofNat l.participant ∧ b.frame = frame
  ordered : ∀ b ∈ bricks, b.bounds.IsFinite ∧ ∀ a : Axis, a.of b.bounds.min ≤ a.of b.bounds.max
  within : ∀ b ∈ bricks, b.bounds.Within l.bounds
  apart : bricks.Pairwise fun b c => b.bounds.Apart c.bounds
  cover : ∀ {K : Type} [Field K] [LinearOrder K] [IsStrictOrderedRing K] (q : Vec3 K),
    l.bounds.Holds q → ∃ b ∈ bricks, b.bounds.Holds q
  hull : ∀ b ∈ bricks, ((bricks.map Brick.bounds).foldl Box.merge b.bounds).SameValue l.bounds

namespace LeafGrid

variable {g : LeafGrid} {m : Point} {frame : UInt32}

theorem Regular.tiledBy (h : g.Regular m) : g.leaf.TiledBy frame (g.bricks frame) where
  nonempty := by
    have hmem : (⟨0, 0, 0⟩ : Vec3 Nat) ∈ BrickLayout.cellsOf g.cells :=
      BrickLayout.mem_cellsOf.2 (Axis.forall_iff.2 ⟨(h.axis .x).pos, (h.axis .y).pos, (h.axis .z).pos⟩)
    exact List.ne_nil_of_mem (List.mem_map_of_mem hmem)
  tagged b hb := by
    obtain ⟨c, -, rfl⟩ := mem_bricks.1 hb
    exact ⟨rfl, rfl⟩
  ordered b hb := by
    obtain ⟨c, hc, rfl⟩ := mem_bricks.1 hb
    have hfin := cellBounds_isFinite h.axis hc
    refine ⟨hfin, fun a => (Single.le_iff_toRat_le (hfin a).1 (hfin a).2).2 ?_⟩
    rw [of_cellBounds_min, of_cellBounds_max]
    exact (h.axis a).line_le_succ (hc a)
  within b hb := by
    obtain ⟨c, hc, rfl⟩ := mem_bricks.1 hb
    exact cellBounds_within h.axis hc
  apart := by
    rw [bricks, List.pairwise_map]
    refine (BrickLayout.nodup_cellsOf g.cells).pairwise_of_forall_ne fun c hc d hd hne => ?_
    exact cellBounds_apart h.axis (BrickLayout.mem_cellsOf.1 hc) (BrickLayout.mem_cellsOf.1 hd) hne
  cover q hq := by
    obtain ⟨c, hc, hcq⟩ := exists_holds h.axis hq
    exact ⟨_, mem_bricks.2 ⟨c, hc, rfl⟩, hcq⟩
  hull b hb := by
    refine fold_merge_cellBounds h.axis (fun b => ?_) (List.mem_map_of_mem hb)
    rw [List.mem_map]
    constructor
    · rintro ⟨_, hbrick, rfl⟩
      obtain ⟨c, hc, rfl⟩ := mem_bricks.1 hbrick
      exact ⟨c, hc, rfl⟩
    · rintro ⟨c, hc, rfl⟩
      exact ⟨_, mem_bricks.2 ⟨c, hc, rfl⟩, rfl⟩

/-- A brick of a grid is solid unless two of its lines round to one scalar. -/
theorem Regular.isSolid_iff (h : g.Regular m) : (∀ b ∈ g.bricks frame, b.bounds.isSolid) ↔
    ∀ a : Axis, ∀ i < a.of g.cells,
      BrickLayout.edge g.leaf.bounds a (a.of g.cells) i <
        BrickLayout.edge g.leaf.bounds a (a.of g.cells) (i + 1) := by
  constructor
  · intro hsolid a i hi
    -- the brick at line `i` of this axis, and at the first lines of the others
    have hcell : ∀ c : Axis, c.of (a.put (⟨0, 0, 0⟩ : Vec3 Nat) i) < c.of g.cells := by
      intro c
      rw [Axis.of_put]
      split
      · rename_i hca
        rwa [hca]
      · have hpos := (h.axis c).pos
        cases c <;> exact hpos
    have hlt := (Box.isSolid_iff.1 (hsolid _ (mem_bricks.2 ⟨_, hcell, rfl⟩)) a).2.2
    rw [of_cellBounds_min, of_cellBounds_max, Axis.of_put, if_pos rfl] at hlt
    rwa [BrickLayout.edge_eq_line, BrickLayout.edge_eq_line]
  · intro hlt b hb
    obtain ⟨c, hc, rfl⟩ := mem_bricks.1 hb
    have hfin := cellBounds_isFinite h.axis hc
    refine Box.isSolid_iff.2 fun a => ⟨(hfin a).1, (hfin a).2, ?_⟩
    have hline := hlt a _ (hc a)
    rwa [BrickLayout.edge_eq_line, BrickLayout.edge_eq_line, ← of_cellBounds_min,
      ← of_cellBounds_max] at hline

end LeafGrid

namespace Partition

variable {extent : Box} {weights : List Single} {p : Partition} {l : Leaf} {m : Point}
  {layout : BrickLayout} {frame : UInt32} {bricks : List Brick}

/-- The bricks of a leaf are those of a regular grid. -/
theorem grid_of_bricksFor (h : ofWeights extent weights = .ok p) (hl : l ∈ p.leaves)
    (hm : BrickLayout.withMaxExtent m = .ok layout)
    (hb : layout.bricksFor l frame = .ok bricks) : ∃ g : LeafGrid,
      g.leaf = l ∧ g.Regular m ∧ bricks = g.bricks frame ∧
        layout.grid l.bounds.size = .ok g.cells := by
  have hsolid := ((leaves_tile h).1 l hl).1
  unfold BrickLayout.bricksFor at hb
  cases hcut : layout.cut l with
  | error e => rw [hcut] at hb; cases hb
  | ok g =>
    rw [hcut] at hb
    cases hb
    obtain ⟨hleaf, hreg⟩ := LeafGrid.regular_of_cut hm hsolid hcut
    refine ⟨g, hleaf, hreg, rfl, ?_⟩
    unfold BrickLayout.cut at hcut
    cases hgrid : layout.grid l.bounds.size with
    | error e => rw [hgrid] at hcut; cases hcut
    | ok cells => rw [hgrid] at hcut; cases hcut; rfl

/-- The bricks of a leaf of an accepted partition tile it, whatever was rounded on the way to their
corners: they belong to it, are apart, cover it and merge to it. They are solid if and only if no two
neighbouring lines of their grid round to one scalar, which is so at least where a brick is not smaller
than the largest coordinate of its leaf over `2 ^ 20`. -/
theorem bricks_tile (h : ofWeights extent weights = .ok p) (hl : l ∈ p.leaves)
    (hm : BrickLayout.withMaxExtent m = .ok layout)
    (hb : layout.bricksFor l frame = .ok bricks) :
    l.TiledBy frame bricks ∧ ∃ cells, layout.grid l.bounds.size = .ok cells ∧
      ((∀ b ∈ bricks, b.bounds.isSolid) ↔ ∀ a : Axis, ∀ i < a.of cells,
        BrickLayout.edge l.bounds a (a.of cells) i <
          BrickLayout.edge l.bounds a (a.of cells) (i + 1)) ∧
      ∀ (a : Axis) (c : Rat), |(a.of l.bounds.min).toRat| ≤ c → |(a.of l.bounds.max).toRat| ≤ c →
        c / 2 ^ 20 + 1 / 2 ^ 147 <
          ((a.of l.bounds.max).toRat - (a.of l.bounds.min).toRat) / a.of cells →
        ∀ b ∈ bricks, a.of b.bounds.min < a.of b.bounds.max := by
  obtain ⟨g, rfl, hreg, rfl, hgrid⟩ := grid_of_bricksFor h hl hm hb
  refine ⟨hreg.tiledBy, g.cells, hgrid, hreg.isSolid_iff, ?_⟩
  intro a c hmin hmax hshare b hbrick
  obtain ⟨cell, hcell, rfl⟩ := LeafGrid.mem_bricks.1 hbrick
  have hfin := LeafGrid.cellBounds_isFinite hreg.axis hcell
  have herror := (abs_le.1 ((hreg.axis a).abs_cell_sub hmin hmax (hcell a))).1
  rw [Single.lt_iff_toRat_lt (hfin a).1 (hfin a).2, LeafGrid.of_cellBounds_min,
    LeafGrid.of_cellBounds_max]
  linarith

/-- Far from the origin the first brick of a leaf is flat: the line at its middle rounds to its lower
end. -/
theorem bricks_tile_flat :
    ∃ p l layout bricks,
      ofWeights ⟨⟨16777216, 0, 0⟩, ⟨16777218, 1, 1⟩⟩ [1] = .ok p ∧ l ∈ p.leaves ∧
      BrickLayout.withMaxExtent ⟨1.5, 1, 1⟩ = .ok layout ∧ layout.bricksFor l 0 = .ok bricks ∧
      ∃ b ∈ bricks, ¬ b.bounds.isSolid := by
  let l : Leaf := ⟨0, ⟨⟨16777216, 0, 0⟩, ⟨16777218, 1, 1⟩⟩⟩
  let flat : Brick := ⟨⟨⟨16777216, 0, 0⟩, ⟨16777216, 1, 1⟩⟩, 0, 0⟩
  let rest : Brick := ⟨⟨⟨16777216, 0, 0⟩, ⟨16777218, 1, 1⟩⟩, 0, 0⟩
  exact ⟨⟨.leaf l⟩, l, ⟨some ⟨1.5, 1, 1⟩⟩, [flat, rest], by decide +kernel, by decide +kernel,
    by decide +kernel, by decide +kernel, flat, by decide +kernel, by decide +kernel⟩

/-- A leaf at the origin that is cut into eight bricks. -/
def eighths : LeafGrid := ⟨⟨0, ⟨Vec3.zero, ⟨1, 0.5, 0.25⟩⟩⟩, ⟨4, 2, 1⟩⟩

theorem bricksFor_eighths :
    ofWeights ⟨Vec3.zero, ⟨1, 0.5, 0.25⟩⟩ [1] = .ok ⟨.leaf eighths.leaf⟩ ∧
      eighths.leaf ∈ (⟨.leaf eighths.leaf⟩ : Partition).leaves ∧
      BrickLayout.withMaxExtent (Vec3.splat 0.3) = .ok ⟨some (Vec3.splat 0.3)⟩ ∧
      BrickLayout.bricksFor ⟨some (Vec3.splat 0.3)⟩ eighths.leaf 7 = .ok (eighths.bricks 7) := by
  decide +kernel

theorem bricks_tile_eighths :
    (eighths.bricks 7).length = 8 ∧ eighths.leaf.TiledBy 7 (eighths.bricks 7) := by
  obtain ⟨hp, hl, hm, hb⟩ := bricksFor_eighths
  exact ⟨by decide +kernel, (bricks_tile hp hl hm hb).1⟩

/-- No brick is much larger than the layout allows: what it is larger by comes from the rounding of its
two corners, and is nothing where every grid line is at its exact place. -/
theorem bricks_fit (h : ofWeights extent weights = .ok p) (hl : l ∈ p.leaves)
    (hm : BrickLayout.withMaxExtent m = .ok layout)
    (hb : layout.bricksFor l frame = .ok bricks) :
    ∃ cells, layout.grid l.bounds.size = .ok cells ∧ ∀ b ∈ bricks, ∀ a : Axis,
      (∀ c : Rat, |(a.of l.bounds.min).toRat| ≤ c → |(a.of l.bounds.max).toRat| ≤ c →
        (a.of b.bounds.max).toRat - (a.of b.bounds.min).toRat ≤
          (a.of m).toRat + c / 2 ^ 19 + 1 / 2 ^ 146) ∧
      ((∀ i ≤ a.of cells, (BrickLayout.edge l.bounds a (a.of cells) i).toRat =
          (a.of l.bounds.min).toRat + (a.of l.bounds.size).toRat * (i / a.of cells)) →
        (a.of b.bounds.max).toRat - (a.of b.bounds.min).toRat ≤ (a.of m).toRat) := by
  obtain ⟨g, rfl, hreg, rfl, hgrid⟩ := grid_of_bricksFor h hl hm hb
  refine ⟨g.cells, hgrid, fun b hbrick a => ?_⟩
  obtain ⟨cell, hcell, rfl⟩ := LeafGrid.mem_bricks.1 hbrick
  have hcount := hreg.count a
  rw [LeafGrid.of_cellBounds_min, LeafGrid.of_cellBounds_max]
  constructor
  · intro c hmin hmax
    rw [Box.of_size] at hcount
    exact (hreg.axis a).cell_le hmin hmax hcount (hcell a)
  · intro hlines
    have hn : (0 : Rat) < a.of g.cells := Nat.cast_pos.2 (hreg.axis a).pos
    have hlow := hlines _ (hcell a).le
    have hhigh := hlines _ (Nat.succ_le_of_lt (hcell a))
    rw [BrickLayout.edge_eq_line] at hlow hhigh
    rw [hlow, hhigh]
    have hshare : (a.of g.leaf.bounds.size).toRat / a.of g.cells ≤ (a.of m).toRat := by
      rwa [div_le_iff₀ hn, mul_comm]
    push_cast
    rw [add_div, mul_add, mul_one_div]
    linarith

/-- Far from the origin a brick is longer than the layout allows: its two lines are rounded away from
each other. -/
theorem bricks_fit_long :
    ∃ p l layout bricks,
      ofWeights ⟨⟨16777216, 0, 0⟩, ⟨16777224, 1, 1⟩⟩ [1] = .ok p ∧ l ∈ p.leaves ∧
      BrickLayout.withMaxExtent ⟨3, 1, 1⟩ = .ok layout ∧ layout.bricksFor l 0 = .ok bricks ∧
      ∃ b ∈ bricks, Single.toRat 3 < b.bounds.max.x.toRat - b.bounds.min.x.toRat := by
  let l : Leaf := ⟨0, ⟨⟨16777216, 0, 0⟩, ⟨16777224, 1, 1⟩⟩⟩
  let first : Brick := ⟨⟨⟨16777216, 0, 0⟩, ⟨16777218, 1, 1⟩⟩, 0, 0⟩
  let long : Brick := ⟨⟨⟨16777218, 0, 0⟩, ⟨16777222, 1, 1⟩⟩, 0, 0⟩
  let last : Brick := ⟨⟨⟨16777222, 0, 0⟩, ⟨16777224, 1, 1⟩⟩, 0, 0⟩
  exact ⟨⟨.leaf l⟩, l, ⟨some ⟨3, 1, 1⟩⟩, [first, long, last], by decide +kernel, by decide +kernel,
    by decide +kernel, by decide +kernel, long, by decide +kernel, by decide +kernel⟩

/-- At the origin the bricks are no larger than the layout allows. -/
theorem bricks_fit_eighths :
    (⟨some (Vec3.splat 0.3)⟩ : BrickLayout).grid eighths.leaf.bounds.size = .ok ⟨4, 2, 1⟩ ∧
      ∀ b ∈ eighths.bricks 7, ∀ a : Axis,
        (a.of b.bounds.max).toRat - (a.of b.bounds.min).toRat ≤ Single.toRat 0.3 := by
  obtain ⟨hp, hl, hm, hb⟩ := bricksFor_eighths
  obtain ⟨cells, hcells, hsize⟩ := bricks_fit hp hl hm hb
  have hgrid : (⟨some (Vec3.splat 0.3)⟩ : BrickLayout).grid eighths.leaf.bounds.size =
      .ok ⟨4, 2, 1⟩ := by decide +kernel
  refine ⟨hgrid, ?_⟩
  obtain rfl : (⟨4, 2, 1⟩ : Vec3 Nat) = cells := Except.ok.inj (hgrid.symm.trans hcells)
  intro b hbrick a
  have hlines : ∀ i ≤ a.of (⟨4, 2, 1⟩ : Vec3 Nat),
      (BrickLayout.edge eighths.leaf.bounds a (a.of ⟨4, 2, 1⟩) i).toRat =
        (a.of eighths.leaf.bounds.min).toRat +
          (a.of eighths.leaf.bounds.size).toRat * (i / (a.of (⟨4, 2, 1⟩ : Vec3 Nat) : Nat)) := by
    cases a <;> decide +kernel
  have hle := (hsize b hbrick a).2 hlines
  cases a <;> exact hle

end Partition
end SortLast
