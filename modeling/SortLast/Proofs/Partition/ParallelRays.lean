import SortLast.Proofs.Geometry.ParallelEye
import SortLast.Proofs.Partition.Tiling

/-!
# Parallel rays through a partition

Parallel rays meet the two sides of a cut in the order that their direction gives, and a partition
is visited in the order that an eye point gives. The orders agree if and only if at every cut that
the rays cross the eye counts as being on the side that they come from.

* `Box.MetBefore`: a ray passes through the interior of one box before that of another.
* `OpenBox`: an open box with exact corners; `Tree.WellCut.exists_leaf_openBox`: every open box in a
  tree has a part in a leaf.
* `Tree.WellCut.pos_of_metBefore`, `Tree.WellCut.exists_metBefore`: rays cross a cut downwards if
  and only if they run against the axis.
* `Tree.pair_sublist_visit_iff`: two leaves are visited one after the other because of the cut that
  parts them.
* `Partition.ordersRays_iff`: when an eye orders rays.
* `Partition.ordered_parallel`: the same for the eye of a parallel view, with a bound on the extent.
-/

namespace SortLast

variable {K : Type} [Field K] [LinearOrder K] [IsStrictOrderedRing K]

/-! ### Rays -/

/-- The vector with given coordinates. -/
def Vec3.ofAxes {α : Type} (f : Axis → α) : Vec3 α := ⟨f .x, f .y, f .z⟩

theorem Axis.of_ofAxes {α : Type} (a : Axis) (f : Axis → α) : a.of (Vec3.ofAxes f) = f a := by
  cases a <;> rfl

/-- The point of a ray against `d` at the parameter `t`. -/
def Vec3.along (q d : Vec3 K) (t : K) : Vec3 K := q - d * t

omit [LinearOrder K] [IsStrictOrderedRing K] in
theorem Axis.of_along (a : Axis) (q d : Vec3 K) (t : K) :
    a.of (Vec3.along q d t) = a.of q - a.of d * t := by
  cases a <;> rfl

/-- The opposite direction. -/
def Vec3.opposite (d : Vec3 K) : Vec3 K := d.map Neg.neg

omit [LinearOrder K] [IsStrictOrderedRing K] in
theorem Axis.of_opposite (a : Axis) (d : Vec3 K) : a.of d.opposite = -a.of d := by
  cases a <;> rfl

omit [LinearOrder K] [IsStrictOrderedRing K] in
theorem Vec3.opposite_opposite (d : Vec3 K) : d.opposite.opposite = d := by
  simp [opposite, map]

namespace Box

/-- Some ray against `d` passes through the interior of `b` before it passes through that of `c`. -/
def MetBefore (d : Vec3 K) (b c : Box) : Prop :=
  ∃ (q : Vec3 K) (s t : K), s < t ∧ b.Inside (Vec3.along q d s) ∧ c.Inside (Vec3.along q d t)

/-- A ray the other way meets the boxes in the other order. -/
theorem MetBefore.opposite {d : Vec3 K} {b c : Box} (h : b.MetBefore d c) :
    c.MetBefore d.opposite b := by
  obtain ⟨q, s, t, hst, hb, hc⟩ := h
  have halong : ∀ (r : K) (a : Axis),
      a.of (Vec3.along q d.opposite (-r)) = a.of (Vec3.along q d r) := by
    intro r a
    rw [Axis.of_along, Axis.of_along, Axis.of_opposite]
    ring
  refine ⟨q, -t, -s, neg_lt_neg hst, fun a => ?_, fun a => ?_⟩
  · rw [halong]
    exact hc a
  · rw [halong]
    exact hb a

theorem metBefore_opposite {d : Vec3 K} {b c : Box} :
    b.MetBefore d.opposite c ↔ c.MetBefore d b :=
  ⟨fun h => d.opposite_opposite ▸ h.opposite, MetBefore.opposite⟩

end Box

/-! ### Open boxes -/

/-- An open box with exact corners. -/
structure OpenBox (K : Type) [LT K] where
  lo : Axis → K
  hi : Axis → K
  lt : ∀ a, lo a < hi a

namespace OpenBox

/-- The open box moved by `u`. -/
def shift (w : OpenBox K) (u : Axis → K) : OpenBox K :=
  ⟨fun a => w.lo a + u a, fun a => w.hi a + u a, fun a => add_lt_add_left (w.lt a) (u a)⟩

/-- The part below a plane. -/
def below (w : OpenBox K) (axis : Axis) (c : K) (h : w.lo axis < c) : OpenBox K where
  lo := w.lo
  hi a := if a = axis then min (w.hi a) c else w.hi a
  lt a := by
    split
    · rename_i ha
      exact lt_min (w.lt a) (ha ▸ h)
    · exact w.lt a

/-- The middle of an open box. -/
def middle (w : OpenBox K) : Vec3 K := Vec3.ofAxes fun a => (w.lo a + w.hi a) / 2

/-- An open box that is part of another one. -/
def Within (w w' : OpenBox K) : Prop := ∀ a, w'.lo a ≤ w.lo a ∧ w.hi a ≤ w'.hi a

/-- An open box all of whose points are points of a box. -/
def OpensIn (w : OpenBox K) (b : Box) : Prop :=
  ∀ a : Axis, ((a.of b.min).toRat : K) ≤ w.lo a ∧ w.hi a ≤ ((a.of b.max).toRat : K)

variable {w w' w'' : OpenBox K} {b c : Box}

omit [Field K] [IsStrictOrderedRing K] in
theorem Within.refl (w : OpenBox K) : w.Within w := fun _ => ⟨le_rfl, le_rfl⟩

omit [Field K] [IsStrictOrderedRing K] in
theorem Within.trans (h : w.Within w') (h' : w'.Within w'') : w.Within w'' :=
  fun a => ⟨(h' a).1.trans (h a).1, (h a).2.trans (h' a).2⟩

theorem Within.shift (h : w.Within w') (u : Axis → K) : (w.shift u).Within (w'.shift u) :=
  fun a => ⟨add_le_add_left (h a).1 (u a), add_le_add_left (h a).2 (u a)⟩

theorem Within.shift_back {u : Axis → K} (h : w.Within (w'.shift fun a => -u a)) :
    (w.shift u).Within w' := by
  intro a
  have hlo : w'.lo a + -u a ≤ w.lo a := (h a).1
  have hhi : w.hi a ≤ w'.hi a + -u a := (h a).2
  constructor
  · show w'.lo a ≤ w.lo a + u a
    linarith
  · show w.hi a + u a ≤ w'.hi a
    linarith

omit [IsStrictOrderedRing K] in
theorem Within.opensIn (h : w.Within w') (hb : w'.OpensIn b) : w.OpensIn b :=
  fun a => ⟨(hb a).1.trans (h a).1, (h a).2.trans (hb a).2⟩

omit [Field K] [IsStrictOrderedRing K] in
theorem below_within (axis : Axis) {c : K} (h : w.lo axis < c) : (w.below axis c h).Within w := by
  intro a
  refine ⟨le_rfl, ?_⟩
  rw [below]
  dsimp only
  split
  · exact min_le_left _ _
  · exact le_rfl

theorem lo_lt_middle (w : OpenBox K) (a : Axis) :
    w.lo a < a.of w.middle ∧ a.of w.middle < w.hi a := by
  have hlt := w.lt a
  rw [middle, Axis.of_ofAxes]
  constructor <;> linarith

theorem of_middle_shift (w : OpenBox K) (u : Axis → K) (a : Axis) :
    a.of (w.shift u).middle = a.of w.middle + u a := by
  rw [middle, middle, Axis.of_ofAxes, Axis.of_ofAxes, shift]
  ring

theorem OpensIn.inside_middle (h : w.OpensIn b) : b.Inside w.middle := by
  intro a
  obtain ⟨hlo, hhi⟩ := w.lo_lt_middle a
  exact ⟨(h a).1.trans_lt hlo, hhi.trans_le (h a).2⟩

/-- An open box in one box that a displacement carries out of another one. -/
theorem exists_opensIn_both {u : Axis → K} (h : ∀ a : Axis,
    ((a.of b.min).toRat : K) < (a.of b.max).toRat ∧ ((a.of c.min).toRat : K) < (a.of c.max).toRat ∧
      ((a.of c.min).toRat : K) < (a.of b.max).toRat + u a ∧
      ((a.of b.min).toRat : K) + u a < (a.of c.max).toRat) :
    ∃ w : OpenBox K, w.OpensIn c ∧ (w.shift fun a => -u a).OpensIn b := by
  let w : OpenBox K :=
    { lo := fun a => max ((a.of c.min).toRat : K) ((a.of b.min).toRat + u a)
      hi := fun a => min ((a.of c.max).toRat : K) ((a.of b.max).toRat + u a)
      lt := fun a => max_lt (lt_min (h a).2.1 (h a).2.2.1)
        (lt_min (h a).2.2.2 (add_lt_add_left (h a).1 (u a))) }
  refine ⟨w, fun a => ⟨le_max_left _ _, min_le_left _ _⟩, fun a => ?_⟩
  have hlo : ((a.of b.min).toRat : K) + u a ≤ w.lo a := le_max_right _ _
  have hhi : w.hi a ≤ (a.of b.max).toRat + u a := min_le_right _ _
  constructor
  · show _ ≤ w.lo a + -u a
    linarith
  · show w.hi a + -u a ≤ _
    linarith

end OpenBox

/-- A step that is short of given lengths along all axes. -/
theorem exists_step (d : Vec3 K) {size : Axis → K} (hsize : ∀ a, 0 < size a) :
    ∃ t, 0 < t ∧ ∀ a : Axis, |a.of d * t| < size a := by
  let bound : Axis → K := fun a => size a / (|a.of d| + 1)
  have hpos : ∀ a : Axis, 0 < |a.of d| + 1 := fun a => by positivity
  have hbound : ∀ a, 0 < bound a := fun a => div_pos (hsize a) (hpos a)
  let t := min (bound .x) (min (bound .y) (bound .z))
  have ht : 0 < t := lt_min (hbound .x) (lt_min (hbound .y) (hbound .z))
  have hle : ∀ a, t ≤ bound a := Axis.forall_iff.2 ⟨min_le_left _ _,
    (min_le_right _ _).trans (min_le_left _ _), (min_le_right _ _).trans (min_le_right _ _)⟩
  refine ⟨t, ht, fun a => ?_⟩
  have hmul : t * (|a.of d| + 1) ≤ size a := (le_div_iff₀ (hpos a)).1 (hle a)
  rw [abs_mul, abs_of_pos ht]
  linarith

namespace Tree

theorem WellCut.min_lt_max {t : Tree} (h : t.WellCut) (a : Axis) :
    ((a.of t.bounds.min).toRat : K) < (a.of t.bounds.max).toRat := by
  obtain ⟨hmin, hmax, hlt⟩ := Box.isSolid_iff.1 h.isSolid a
  exact Rat.cast_lt.2 ((Single.lt_iff_toRat_lt hmin hmax).1 hlt)

omit [IsStrictOrderedRing K] in
/-- Every open box in the box of a tree has a part in some leaf. -/
theorem WellCut.exists_leaf_openBox {t : Tree} (h : t.WellCut) {w : OpenBox K}
    (hw : w.OpensIn t.bounds) :
    ∃ l ∈ t.leaves, ∃ w' : OpenBox K, w'.Within w ∧ w'.OpensIn l.bounds := by
  induction t generalizing w with
  | leaf l => exact ⟨l, List.mem_singleton_self l, w, .refl w, hw⟩
  | node axis position b lower upper ihl ihu =>
    obtain ⟨-, hlb, hub, hlower, hupper⟩ := h
    rw [leaves]
    by_cases hlo : w.lo axis < (position.toRat : K)
    · have hpart : (w.below axis _ hlo).OpensIn lower.bounds := by
        intro a
        rw [hlb]
        refine ⟨(hw a).1, ?_⟩
        rw [OpenBox.below, Box.split, Axis.of_put]
        dsimp only
        split
        · exact min_le_right _ _
        · exact (hw a).2
      obtain ⟨l, hl, w', hw', hopen⟩ := ihl hlower hpart
      exact ⟨l, List.mem_append_left _ hl, w', hw'.trans (OpenBox.below_within axis hlo), hopen⟩
    · have hpart : w.OpensIn upper.bounds := by
        intro a
        rw [hub]
        refine ⟨?_, (hw a).2⟩
        rw [Box.split, Axis.of_put]
        split
        · rename_i ha
          rw [ha]
          exact not_lt.1 hlo
        · exact (hw a).1
      obtain ⟨l, hl, w', hw', hopen⟩ := ihu hupper hpart
      exact ⟨l, List.mem_append_right _ hl, w', hw', hopen⟩

section Cut

variable {axis : Axis} {position : Single} {b : Box} {lower upper : Tree} {d : Vec3 K} {l m : Leaf}

omit [LinearOrder K] [IsStrictOrderedRing K] [Field K] in
/-- The parts of a box touch along the axis of the cut and agree along the others. -/
theorem WellCut.bounds_of_cut (h : (node axis position b lower upper).WellCut) (a : Axis) :
    (a = axis ∧ a.of lower.bounds.max = a.of upper.bounds.min) ∨
      (a.of lower.bounds.min = a.of upper.bounds.min ∧
        a.of lower.bounds.max = a.of upper.bounds.max) := by
  obtain ⟨-, hlb, hub, -, -⟩ := h
  rw [hlb, hub]
  by_cases ha : a = axis
  · subst ha
    exact .inl ⟨rfl, by rw [Box.split_fst_max, Box.split_snd_min]⟩
  · refine .inr ⟨?_, ?_⟩
    · rw [Box.split, Axis.of_put, if_neg ha]
    · rw [Box.split, Axis.of_put, if_neg ha]

/-- A ray that meets the upper part first runs downwards across the plane. -/
theorem WellCut.pos_of_metBefore (h : (node axis position b lower upper).WellCut)
    (hl : l ∈ lower.leaves) (hm : m ∈ upper.leaves) (hmet : m.bounds.MetBefore d l.bounds) :
    0 < axis.of d := by
  obtain ⟨q, s, t, hst, hupper, hlower⟩ := hmet
  have hle : ((axis.of l.bounds.max).toRat : K) ≤ position.toRat := Rat.cast_le.2 (h.lower_le hl)
  have hge : (position.toRat : K) ≤ (axis.of m.bounds.min).toRat := Rat.cast_le.2 (h.le_upper hm)
  have habove := (hupper axis).1
  have hbelow := (hlower axis).2
  rw [Axis.of_along] at habove hbelow
  have hcross : 0 < axis.of d * (t - s) := by linarith
  exact (mul_pos_iff_of_pos_right (sub_pos.2 hst)).1 hcross

/-- Rays that run downwards across a plane meet some leaf above it before one below. -/
theorem WellCut.exists_metBefore (h : (node axis position b lower upper).WellCut)
    (hd : 0 < axis.of d) :
    ∃ l ∈ lower.leaves, ∃ m ∈ upper.leaves, m.bounds.MetBefore d l.bounds := by
  obtain ⟨-, -, -, hlower, hupper⟩ := id h
  obtain ⟨t, ht, hstep⟩ := exists_step d fun a => sub_pos.2 (hupper.min_lt_max a)
  -- a step that is shorter than the upper box leads from the lower one into it across the plane
  have hboth : ∀ a : Axis,
      ((a.of lower.bounds.min).toRat : K) < (a.of lower.bounds.max).toRat ∧
      ((a.of upper.bounds.min).toRat : K) < (a.of upper.bounds.max).toRat ∧
      ((a.of upper.bounds.min).toRat : K) < (a.of lower.bounds.max).toRat + a.of d * t ∧
      ((a.of lower.bounds.min).toRat : K) + a.of d * t < (a.of upper.bounds.max).toRat := by
    intro a
    have hl := hlower.min_lt_max (K := K) a
    have hu := hupper.min_lt_max (K := K) a
    have hlength := abs_lt.1 (hstep a)
    refine ⟨hl, hu, ?_⟩
    rcases h.bounds_of_cut a with ⟨rfl, hplane⟩ | ⟨hmin, hmax⟩
    · have hforward := mul_pos hd ht
      rw [hplane] at hl ⊢
      constructor <;> linarith
    · rw [hmin, hmax]
      constructor <;> linarith
  obtain ⟨w, hopen, hshift⟩ := OpenBox.exists_opensIn_both hboth
  obtain ⟨m, hm, w', hw', hmopen⟩ := hupper.exists_leaf_openBox hopen
  obtain ⟨l, hl, w'', hw'', hlopen⟩ :=
    hlower.exists_leaf_openBox ((hw'.shift fun a => -(a.of d * t)).opensIn hshift)
  refine ⟨l, hl, m, hm, w''.middle, -t, 0, neg_lt_zero.2 ht, fun a => ?_, fun a => ?_⟩
  · have hpoint : a.of (Vec3.along w''.middle d (-t)) =
        a.of (w''.shift fun a => a.of d * t).middle := by
      rw [Axis.of_along, OpenBox.of_middle_shift]
      ring
    rw [hpoint]
    exact (hw''.shift_back.opensIn hmopen).inside_middle a
  · rw [Axis.of_along, mul_zero, sub_zero]
    exact hlopen.inside_middle a

end Cut

/-! ### Visits -/

theorem leaves_of_mem_subtrees {t s : Tree} (hs : s ∈ t.subtrees) : s.leaves ⊆ t.leaves := by
  induction t with
  | leaf l =>
    rw [subtrees, List.mem_singleton] at hs
    rw [hs]
    exact List.Subset.refl _
  | node axis position b lower upper ihl ihu =>
    rw [subtrees, List.mem_cons, List.mem_append] at hs
    rcases hs with rfl | hs | hs
    · exact List.Subset.refl _
    · exact List.Subset.trans (ihl hs) (List.subset_append_left _ _)
    · exact List.Subset.trans (ihu hs) (List.subset_append_right _ _)

/-- The cut of a tree has one leaf on the side of the eye and the other one beyond it. -/
def Parts (eye : Point) (l m : Leaf) : Tree → Prop
  | leaf _ => False
  | node axis position _ lower upper =>
    if axis.of eye ≤ position then l ∈ lower.leaves ∧ m ∈ upper.leaves
    else l ∈ upper.leaves ∧ m ∈ lower.leaves

variable {eye : Point} {l m : Leaf}

/-- The near side of a cut is visited first. -/
theorem visit_frontToBack {axis : Axis} {position : Single} {b : Box} {lower upper : Tree} :
    (node axis position b lower upper).visit eye .frontToBack =
      if axis.of eye ≤ position then lower.visit eye .frontToBack ++ upper.visit eye .frontToBack
      else upper.visit eye .frontToBack ++ lower.visit eye .frontToBack := by
  conv_lhs => unfold visit
  by_cases he : axis.of eye ≤ position
  · simp only [he, decide_true, if_true]
  · simp only [he, decide_false, if_false]

theorem visit_sublist {t s : Tree} (hs : s ∈ t.subtrees) :
    (s.visit eye .frontToBack).Sublist (t.visit eye .frontToBack) := by
  induction t with
  | leaf l =>
    rw [subtrees, List.mem_singleton] at hs
    rw [hs]
  | node axis position b lower upper ihl ihu =>
    rw [subtrees, List.mem_cons, List.mem_append] at hs
    rw [visit_frontToBack]
    rcases hs with rfl | hs | hs
    · rw [visit_frontToBack]
    · split
      · exact (ihl hs).trans (List.sublist_append_left _ _)
      · exact (ihl hs).trans (List.sublist_append_right _ _)
    · split
      · exact (ihu hs).trans (List.sublist_append_right _ _)
      · exact (ihu hs).trans (List.sublist_append_left _ _)

/-- The parted leaves of a cut are visited one after the other. -/
theorem Parts.sublist {t : Tree} (h : t.Parts eye l m) :
    [l, m].Sublist (t.visit eye .frontToBack) := by
  have hvisit : ∀ {s : Tree} {n : Leaf}, n ∈ s.leaves → [n].Sublist (s.visit eye .frontToBack) :=
    fun {s} {_} hn => List.singleton_sublist.2 ((visit_perm eye _ s).mem_iff.2 hn)
  cases t with
  | leaf n => exact h.elim
  | node axis position b lower upper =>
    rw [Parts] at h
    rw [visit_frontToBack]
    by_cases he : axis.of eye ≤ position
    · rw [if_pos he] at h ⊢
      exact (hvisit h.1).append (hvisit h.2)
    · rw [if_neg he] at h ⊢
      exact (hvisit h.1).append (hvisit h.2)

/-- Two leaves are visited one after the other if and only if some cut parts them so. -/
theorem pair_sublist_visit_iff {t : Tree} :
    [l, m].Sublist (t.visit eye .frontToBack) ↔ ∃ s ∈ t.subtrees, s.Parts eye l m := by
  refine ⟨fun hlm => ?_, fun ⟨s, hs, hparts⟩ => hparts.sublist.trans (visit_sublist hs)⟩
  induction t with
  | leaf n =>
    have hlen := hlm.length_le
    simp [visit] at hlen
  | node axis position b lower upper ihl ihu =>
    have hvisit : ∀ {s : Tree} {n : Leaf}, n ∈ s.visit eye .frontToBack → n ∈ s.leaves :=
      fun {s} {_} hn => (visit_perm eye _ s).mem_iff.1 hn
    simp only [subtrees, List.mem_cons, List.mem_append, or_and_right, exists_or, exists_eq_left]
    rw [visit_frontToBack] at hlm
    rw [Parts]
    by_cases he : axis.of eye ≤ position
    · rw [if_pos he] at hlm ⊢
      rcases pair_sublist_append hlm with hlm | hlm | ⟨hl, hm⟩
      · exact .inr (.inl (ihl hlm))
      · exact .inr (.inr (ihu hlm))
      · exact .inl ⟨hvisit hl, hvisit hm⟩
    · rw [if_neg he] at hlm ⊢
      rcases pair_sublist_append hlm with hlm | hlm | ⟨hl, hm⟩
      · exact .inr (.inr (ihu hlm))
      · exact .inr (.inl (ihl hlm))
      · exact .inl ⟨hvisit hl, hvisit hm⟩

end Tree

/-! ### Partitions -/

namespace Partition

/-- The boxes come in the order of the rays against `d`, as seen from an eye: no such ray passes
through the interior of a later box before it passes through that of an earlier one. -/
def OrdersRays (p : Partition) (eye : Point) (d : Vec3 K) : Prop :=
  ∀ l ∈ p.leaves, ∀ m ∈ p.leaves,
    [l.participant, m.participant].Sublist (p.ordered eye .frontToBack) →
      ¬ m.bounds.MetBefore d l.bounds

variable {extent : Box} {weights : List Single} {p : Partition} {eye : Point}

/-- An eye orders rays if and only if at every cut that they cross it counts as being on the side
that they come from. -/
theorem ordersRays_iff (h : ofWeights extent weights = .ok p) (d : Vec3 K) :
    p.OrdersRays eye d ↔
      ∀ axis position b lower upper, .node axis position b lower upper ∈ p.root.subtrees →
        (0 < axis.of d → ¬ axis.of eye ≤ position) ∧ (axis.of d < 0 → axis.of eye ≤ position) := by
  obtain ⟨hne, hd⟩ := divide_of_ofWeights h
  have hcut := (Tree.divide_ok hne hd).1
  constructor
  · intro horder axis position b lower upper hmem
    have hnode := hcut.of_mem_subtrees hmem
    have hleaf : ∀ {l : Leaf}, l ∈ lower.leaves ∨ l ∈ upper.leaves → l ∈ p.leaves :=
      fun hl => Tree.leaves_of_mem_subtrees hmem (List.mem_append.2 hl)
    -- where the eye is on the wrong side, some ray meets a far leaf before a near one
    have hright : ∀ {l m : Leaf}, l ∈ p.leaves → m ∈ p.leaves → m.bounds.MetBefore d l.bounds →
        ¬ (Tree.node axis position b lower upper).Parts eye l m := by
      intro l m hl hm hmet hparts
      have hlm : [l, m].Sublist (p.visit eye .frontToBack) :=
        Tree.pair_sublist_visit_iff.2 ⟨_, hmem, hparts⟩
      exact horder l hl m hm (hlm.map Leaf.participant) hmet
    constructor
    · intro hpos he
      obtain ⟨l, hl, m, hm, hmet⟩ := hnode.exists_metBefore hpos
      refine hright (hleaf (.inl hl)) (hleaf (.inr hm)) hmet ?_
      rw [Tree.Parts, if_pos he]
      exact ⟨hl, hm⟩
    · intro hneg
      by_contra he
      have hpos : 0 < axis.of d.opposite := by
        rw [Axis.of_opposite]
        exact neg_pos.2 hneg
      obtain ⟨l, hl, m, hm, hmet⟩ := hnode.exists_metBefore hpos
      refine hright (hleaf (.inr hm)) (hleaf (.inl hl)) (Box.metBefore_opposite.1 hmet) ?_
      rw [Tree.Parts, if_neg he]
      exact ⟨hm, hl⟩
  · intro hside l hl m hm hlm hmet
    obtain ⟨s, hmem, hparts⟩ := Tree.pair_sublist_visit_iff.1 (visit_of_ordered h hl hm hlm)
    cases s with
    | leaf n => exact hparts
    | node axis position b lower upper =>
      have hnode := hcut.of_mem_subtrees hmem
      obtain ⟨habove, hbelow⟩ := hside axis position b lower upper hmem
      rw [Tree.Parts] at hparts
      split at hparts
      · rename_i he
        exact habove (hnode.pos_of_metBefore hparts.1 hparts.2 hmet) he
      · rename_i he
        have hneg := hnode.pos_of_metBefore hparts.2 hparts.1 hmet.opposite
        rw [Axis.of_opposite] at hneg
        exact he (hbelow (neg_pos.1 hneg))

/-- The eye of a parallel view orders the rays of the view if and only if at every cut that they
cross it is on the side that they come from. So it is for every partition of a box that ends before
the eye. -/
theorem ordered_parallel (h : ofWeights extent weights = .ok p) {v : View}
    (hv : v.isPerspective = false) (hinv : v.modelview.InvertedBy v.modelview.inverse) :
    (p.OrdersRays v.eye (Vec3.exact v.towardsEye : Vec3 K) ↔
      ∀ axis position b lower upper, .node axis position b lower upper ∈ p.root.subtrees →
        (0 < (axis.of v.towardsEye).toRat → position < axis.of v.eye) ∧
        ((axis.of v.towardsEye).toRat < 0 → axis.of v.eye ≤ position)) ∧
    (v.Clears extent → p.OrdersRays v.eye (Vec3.exact v.towardsEye : Vec3 K)) := by
  obtain ⟨hne, hd⟩ := divide_of_ofWeights h
  obtain ⟨hcut, hbounds, -⟩ := Tree.divide_ok hne hd
  have hfin := hinv.inverse_isFinite
  have hiff : p.OrdersRays v.eye (Vec3.exact v.towardsEye : Vec3 K) ↔
      ∀ axis position b lower upper, .node axis position b lower upper ∈ p.root.subtrees →
        (0 < (axis.of v.towardsEye).toRat → position < axis.of v.eye) ∧
        ((axis.of v.towardsEye).toRat < 0 → axis.of v.eye ≤ position) := by
    rw [ordersRays_iff h]
    refine forall₅_congr fun axis position b lower upper => forall_congr' fun hmem => ?_
    have hposition := Single.not_isNaN (hcut.of_mem_subtrees hmem).position_isFinite
    rw [Axis.of_exact, Rat.cast_pos, Rat.cast_lt_zero,
      Single.not_le_iff (View.eye_isNaN hv hfin axis) hposition]
  refine ⟨hiff, fun hclears => hiff.2 fun axis position b lower upper hmem => ?_⟩
  -- the corners of the box that is cut are on the same side of the eye as those of the extent
  have hnode := hcut.of_mem_subtrees hmem
  obtain ⟨hmin, hmax, -⟩ := Box.isSolid_iff.1 hnode.isSolid axis
  obtain ⟨hlower, hupper⟩ := hcut.within_of_mem_subtrees hmem axis
  rw [hbounds] at hlower hupper
  obtain ⟨hclear, hclear'⟩ := hclears axis
  obtain ⟨habove, hbelow⟩ := hnode.position_between
  constructor
  · intro hpos
    have hle := View.le_eye hv hfin axis hpos hmax (hupper.trans (hclear hpos))
    exact Single.lt_of_lt_of_le hbelow hle
  · intro hneg
    have hle := View.eye_le hv hfin axis hneg hmin ((hclear' hneg).trans hlower)
    exact Single.le_trans hle (Single.le_of_lt habove)

/-- A box of a few units ends well before the eye, and its far half is the lower one. -/
theorem ordered_parallel_small :
    ∃ p, ofWeights ⟨⟨0, 0, -5⟩, ⟨4, 1, -4⟩⟩ [1, 1] = .ok p ∧ View.diagonal.isPerspective = false ∧
      View.diagonal.modelview.InvertedBy View.diagonal.modelview.inverse ∧
      p.ordered View.diagonal.eye .frontToBack = [1, 0] ∧
      p.OrdersRays View.diagonal.eye (Vec3.exact View.diagonal.towardsEye : Vec3 Rat) := by
  let p : Partition := ⟨.node .x 2 ⟨⟨0, 0, -5⟩, ⟨4, 1, -4⟩⟩ (.leaf ⟨0, ⟨⟨0, 0, -5⟩, ⟨2, 1, -4⟩⟩⟩)
    (.leaf ⟨1, ⟨⟨2, 0, -5⟩, ⟨4, 1, -4⟩⟩⟩)⟩
  have hp : ofWeights ⟨⟨0, 0, -5⟩, ⟨4, 1, -4⟩⟩ [1, 1] = .ok p := by decide +kernel
  have hinv : View.diagonal.modelview.InvertedBy View.diagonal.modelview.inverse := by
    decide +kernel
  have hclears : View.diagonal.Clears ⟨⟨0, 0, -5⟩, ⟨4, 1, -4⟩⟩ :=
    Axis.forall_iff.2 (by decide +kernel)
  exact ⟨p, hp, rfl, hinv, by decide +kernel, (ordered_parallel hp rfl hinv).2 hclears⟩

/-- A box of some millions of units before the view plane does not end before the eye. The eye is
below the cut, and a ray against `(1/2, 0, 1/2)` passes through the upper half first. -/
theorem ordered_parallel_wide :
    ∃ p, ofWeights ⟨⟨0, 0, -5000000⟩, ⟨4000000, 1, -4000000⟩⟩ [1, 1] = .ok p ∧
      View.diagonal.isPerspective = false ∧
      View.diagonal.modelview.InvertedBy View.diagonal.modelview.inverse ∧
      View.diagonal.InFront ⟨⟨0, 0, -5000000⟩, ⟨4000000, 1, -4000000⟩⟩ ∧
      p.ordered View.diagonal.eye .frontToBack = [0, 1] ∧
      ¬ p.OrdersRays View.diagonal.eye (Vec3.exact View.diagonal.towardsEye : Vec3 Rat) := by
  let l : Leaf := ⟨0, ⟨⟨0, 0, -5000000⟩, ⟨2000000, 1, -4000000⟩⟩⟩
  let m : Leaf := ⟨1, ⟨⟨2000000, 0, -5000000⟩, ⟨4000000, 1, -4000000⟩⟩⟩
  let p : Partition :=
    ⟨.node .x 2000000 ⟨⟨0, 0, -5000000⟩, ⟨4000000, 1, -4000000⟩⟩ (.leaf l) (.leaf m)⟩
  have hfront : View.diagonal.InFront ⟨⟨0, 0, -5000000⟩, ⟨4000000, 1, -4000000⟩⟩ := by
    intro q hq
    have hx : q.x ≤ Single.toRat 4000000 := (hq .x).2
    have hz : q.z ≤ Single.toRat (-4000000) := (hq .z).2
    have hdepth : (View.diagonal.modelview.exactMulVec ⟨q.x, q.y, q.z, 1⟩).z =
        Single.toRat 1 * q.x + Single.toRat 0 * q.y + Single.toRat 1 * q.z + Single.toRat 0 * 1 :=
      rfl
    rw [show Single.toRat 4000000 = 4000000 by decide +kernel] at hx
    rw [show Single.toRat (-4000000) = -4000000 by decide +kernel] at hz
    rw [hdepth, show Single.toRat 1 = 1 by decide +kernel,
      show Single.toRat 0 = 0 by decide +kernel]
    linarith
  have horder : p.ordered View.diagonal.eye .frontToBack = [l.participant, m.participant] := by
    decide +kernel
  have hmet : m.bounds.MetBefore (Vec3.exact View.diagonal.towardsEye : Vec3 Rat) l.bounds :=
    ⟨⟨2000000 + 1 / 4, 1 / 2, -4500000⟩, 0, 1, by decide +kernel,
      Axis.forall_iff.2 (by decide +kernel), Axis.forall_iff.2 (by decide +kernel)⟩
  refine ⟨p, by decide +kernel, rfl, by decide +kernel, hfront, horder, fun hrays => ?_⟩
  exact hrays l (by decide) m (by decide) (by rw [horder]) hmet

end Partition
end SortLast
