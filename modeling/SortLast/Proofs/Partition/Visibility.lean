import SortLast.Proofs.Scalar.Order
import SortLast.Partition.Tree

/-!
# Visibility order of a partition

The boxes of a partition are visited so that no box hides one that was visited before it. Coordinates
are read as exact numbers, in any ordered field, so that segments are those of rational or real space.

* `Box.Holds`, `Box.Inside`: the points of a box, and of its interior.
* `Tree.divide_cases`: a division that succeeds leaves a box to one participant or cuts it in two.
* `Tree.WellCut`: every box is solid and cut into the boxes below it; `Tree.divide_ok` shows that
  this is what dividing a box makes.
* `Tree.visit_reverse`, `Tree.visit_perm`: the two orders are each other's reverse, and every leaf is
  visited once.
* `Tree.visit_unhidden`: a later leaf lies behind the plane that separates it from an earlier one.
* `Partition.ordered_unhidden`: the same of the participants of every accepted partition.
-/

namespace SortLast

/-! ### Coordinates -/

namespace Axis

theorem of_put {α : Type} (a b : Axis) (v : Vec3 α) (s : α) :
    b.of (a.put v s) = if b = a then s else b.of v := by
  cases a <;> cases b <;> rfl

theorem forall_iff {p : Axis → Prop} : (∀ a, p a) ↔ p x ∧ p y ∧ p z := by
  constructor
  · intro h
    exact ⟨h x, h y, h z⟩
  · rintro ⟨hx, hy, hz⟩ a
    cases a <;> assumption

end Axis

/-- A finite point has finite coordinates. -/
theorem Vec3.isFinite_iff {v : Point} : v.isFinite ↔ ∀ a : Axis, (a.of v).isFinite := by
  rw [Axis.forall_iff, Vec3.isFinite, Vec3.all, Bool.and_eq_true, Bool.and_eq_true, and_assoc]
  rfl

section

variable {K : Type} [Field K] [LinearOrder K] [IsStrictOrderedRing K]

/-- A point with its coordinates read as exact numbers. -/
def Vec3.exact (p : Point) : Vec3 K := p.map fun c => (c.toRat : K)

/-- The point at the fraction `t` of the way from `u` to `v`. -/
def Vec3.between (u v : Vec3 K) (t : K) : Vec3 K := u + (v - u) * t

omit [LinearOrder K] [IsStrictOrderedRing K] in
theorem Axis.of_exact (a : Axis) (p : Point) : a.of (Vec3.exact p : Vec3 K) = ((a.of p).toRat : K) := by
  cases a <;> rfl

omit [LinearOrder K] [IsStrictOrderedRing K] in
theorem Axis.of_between (a : Axis) (u v : Vec3 K) (t : K) :
    a.of (Vec3.between u v t) = a.of u + (a.of v - a.of u) * t := by
  cases a <;> rfl

/-- A segment stays below a plane that both of its ends are below. -/
theorem Vec3.between_le {a : Axis} {u v : Vec3 K} {c t : K} (h0 : 0 ≤ t) (h1 : t ≤ 1)
    (hu : a.of u ≤ c) (hv : a.of v ≤ c) : a.of (Vec3.between u v t) ≤ c := by
  have hleft := mul_nonneg (sub_nonneg.2 h1) (sub_nonneg.2 hu)
  have hright := mul_nonneg h0 (sub_nonneg.2 hv)
  rw [Axis.of_between]
  linarith

theorem Vec3.le_between {a : Axis} {u v : Vec3 K} {c t : K} (h0 : 0 ≤ t) (h1 : t ≤ 1)
    (hu : c ≤ a.of u) (hv : c ≤ a.of v) : c ≤ a.of (Vec3.between u v t) := by
  have hleft := mul_nonneg (sub_nonneg.2 h1) (sub_nonneg.2 hu)
  have hright := mul_nonneg h0 (sub_nonneg.2 hv)
  rw [Axis.of_between]
  linarith

end

/-! ### Boxes -/

namespace Box

/-- The points of a box, its faces included. -/
def Holds {K : Type} [Field K] [LinearOrder K] (b : Box) (q : Vec3 K) : Prop :=
  ∀ a : Axis, ((a.of b.min).toRat : K) ≤ a.of q ∧ a.of q ≤ ((a.of b.max).toRat : K)

/-- The points of a box's interior. -/
def Inside {K : Type} [Field K] [LinearOrder K] (b : Box) (q : Vec3 K) : Prop :=
  ∀ a : Axis, ((a.of b.min).toRat : K) < a.of q ∧ a.of q < ((a.of b.max).toRat : K)

/-- A box that is part of another one. -/
def Within (b c : Box) : Prop :=
  ∀ a : Axis, (a.of c.min).toRat ≤ (a.of b.min).toRat ∧ (a.of b.max).toRat ≤ (a.of c.max).toRat

theorem Within.refl (b : Box) : b.Within b := fun _ => ⟨le_rfl, le_rfl⟩

theorem Within.trans {b c d : Box} (hbc : b.Within c) (hcd : c.Within d) : b.Within d :=
  fun a => ⟨(hcd a).1.trans (hbc a).1, (hbc a).2.trans (hcd a).2⟩

theorem isSolid_iff {b : Box} : b.isSolid ↔
    ∀ a : Axis, (a.of b.min).isFinite ∧ (a.of b.max).isFinite ∧ a.of b.min < a.of b.max := by
  simp only [isSolid, Bool.and_eq_true, decide_eq_true_eq, Vec3.isFinite_iff, Axis.forall_iff]
  simp only [Axis.of]
  tauto

variable {b : Box} {a : Axis} {position : Single}

theorem split_fst_max : a.of (b.split a position).1.max = position := by
  rw [split, Axis.of_put, if_pos rfl]

theorem split_snd_min : a.of (b.split a position).2.min = position := by
  rw [split, Axis.of_put, if_pos rfl]

/-- A box whose two parts are solid is solid: its corners are a corner of each part. -/
theorem isSolid_of_split (hl : (b.split a position).1.isSolid) (hu : (b.split a position).2.isSolid) :
    b.isSolid := by
  rw [isSolid_iff] at *
  intro c
  refine ⟨(hl c).1, (hu c).2.1, ?_⟩
  by_cases hc : c = a
  · subst hc
    have h1 := (Single.lt_iff_toRat_lt (hl c).1 (hl c).2.1).1 (hl c).2.2
    have h2 := (Single.lt_iff_toRat_lt (hu c).1 (hu c).2.1).1 (hu c).2.2
    rw [split_fst_max] at h1
    rw [split_snd_min] at h2
    exact (Single.lt_iff_toRat_lt (hl c).1 (hu c).2.1).2 (h1.trans h2)
  · have h := (hl c).2.2
    rwa [split, Axis.of_put, if_neg hc] at h

theorem split_fst_within (hl : (b.split a position).1.isSolid)
    (hu : (b.split a position).2.isSolid) : (b.split a position).1.Within b := by
  intro c
  refine ⟨le_rfl, ?_⟩
  rw [split, Axis.of_put]
  split
  · rename_i hc
    subst hc
    rw [isSolid_iff] at hu
    have h := (Single.lt_iff_toRat_lt (hu c).1 (hu c).2.1).1 (hu c).2.2
    rw [split_snd_min] at h
    exact h.le
  · exact le_rfl

theorem split_snd_within (hl : (b.split a position).1.isSolid)
    (hu : (b.split a position).2.isSolid) : (b.split a position).2.Within b := by
  intro c
  refine ⟨?_, le_rfl⟩
  rw [split, Axis.of_put]
  split
  · rename_i hc
    subst hc
    rw [isSolid_iff] at hl
    have h := (Single.lt_iff_toRat_lt (hl c).1 (hl c).2.1).1 (hl c).2.2
    rw [split_fst_max] at h
    exact h.le
  · exact le_rfl

end Box

/-! ### Cut boxes -/

namespace Tree

/-- Every box is solid, and every cut box has its two parts below it. -/
def WellCut : Tree → Prop
  | leaf l => l.bounds.isSolid
  | node axis position b lower upper =>
    b.isSolid ∧ lower.bounds = (b.split axis position).1 ∧ upper.bounds = (b.split axis position).2 ∧
      lower.WellCut ∧ upper.WellCut

theorem WellCut.isSolid {t : Tree} (h : t.WellCut) : t.bounds.isSolid := by
  cases t with
  | leaf l => exact h
  | node axis position b lower upper => exact h.1

/-- The plane of a cut is finite. -/
theorem WellCut.position_isFinite {axis : Axis} {position : Single} {b : Box} {lower upper : Tree}
    (h : (node axis position b lower upper).WellCut) : position.isFinite := by
  obtain ⟨-, hl, -, hlower, -⟩ := h
  have hsolid := hlower.isSolid
  rw [hl, Box.isSolid_iff] at hsolid
  have hmax := (hsolid axis).2.1
  rwa [Box.split_fst_max] at hmax

variable {axis : Axis} {position : Single} {b : Box} {lower upper : Tree}

/-- The two parts of a box lie in it. -/
theorem WellCut.parts_within (h : (node axis position b lower upper).WellCut) :
    lower.bounds.Within b ∧ upper.bounds.Within b := by
  obtain ⟨-, hlb, hub, hlower, hupper⟩ := h
  have hls := hlower.isSolid
  have hus := hupper.isSolid
  rw [hlb] at hls ⊢
  rw [hub] at hus ⊢
  exact ⟨Box.split_fst_within hls hus, Box.split_snd_within hls hus⟩

/-- Every leaf lies in the box of its tree. -/
theorem WellCut.leaf_within {t : Tree} (h : t.WellCut) {l : Leaf} (hl : l ∈ t.leaves) :
    l.bounds.Within t.bounds := by
  induction t with
  | leaf m =>
    rw [leaves, List.mem_singleton] at hl
    rw [hl]
    exact Box.Within.refl _
  | node axis position b lower upper ihl ihu =>
    obtain ⟨hlw, huw⟩ := h.parts_within
    obtain ⟨-, -, -, hlower, hupper⟩ := h
    rw [leaves, List.mem_append] at hl
    rcases hl with hl | hl
    · exact (ihl hlower hl).trans hlw
    · exact (ihu hupper hl).trans huw

/-- The leaves of the lower part lie below the plane. -/
theorem WellCut.lower_le (h : (node axis position b lower upper).WellCut) {l : Leaf}
    (hl : l ∈ lower.leaves) : (axis.of l.bounds.max).toRat ≤ position.toRat := by
  obtain ⟨-, hlb, -, hlower, -⟩ := h
  have hw := (hlower.leaf_within hl axis).2
  rwa [hlb, Box.split_fst_max] at hw

/-- The leaves of the upper part lie above the plane. -/
theorem WellCut.le_upper (h : (node axis position b lower upper).WellCut) {l : Leaf}
    (hl : l ∈ upper.leaves) : position.toRat ≤ (axis.of l.bounds.min).toRat := by
  obtain ⟨-, -, hub, -, hupper⟩ := h
  have hw := (hupper.leaf_within hl axis).1
  rwa [hub, Box.split_snd_min] at hw

/-! ### What dividing a box makes -/

/-- A division that succeeds leaves a box to one participant or cuts it in two for several. -/
theorem divide_cases {b : Box} {first : Nat} {weights : List Single} {t : Tree}
    (h : divide b first weights = .ok t) :
    (weights.length ≤ 1 ∧ b.isSolid ∧ t = leaf ⟨first, b⟩) ∨
    (1 < weights.length ∧ ∃ position lower upper,
      position = cutPosition b b.longestAxis (lowerFraction (weights.take (weights.length / 2))
        (weights.drop (weights.length / 2))) ∧
      t = node b.longestAxis position b lower upper ∧
      divide (b.split b.longestAxis position).1 first (weights.take (weights.length / 2)) =
        .ok lower ∧
      divide (b.split b.longestAxis position).2 (first + weights.length / 2)
        (weights.drop (weights.length / 2)) = .ok upper) := by
  rw [divide] at h
  split at h
  · rename_i hle
    rw [ofBox] at h
    split at h
    · rename_i hs
      cases h
      exact .inl ⟨hle, hs, rfl⟩
    · cases h
  · rename_i hgt
    simp only at h
    generalize hposition : cutPosition b b.longestAxis (lowerFraction
      (weights.take (weights.length / 2)) (weights.drop (weights.length / 2))) = position at h
    cases hl : divide (b.split b.longestAxis position).1 first
        (weights.take (weights.length / 2)) with
    | error e => rw [hl] at h; cases h
    | ok lower =>
      cases hu : divide (b.split b.longestAxis position).2 (first + weights.length / 2)
          (weights.drop (weights.length / 2)) with
      | error e => rw [hl, hu] at h; cases h
      | ok upper =>
        rw [hl, hu] at h
        cases h
        exact .inr ⟨by omega, position, lower, upper, rfl, rfl, hl, hu⟩

/-- A division that succeeds cuts the box properly and numbers its leaves from `first` on. -/
theorem divide_ok {b : Box} {first : Nat} {weights : List Single} {t : Tree} (hne : weights ≠ [])
    (h : divide b first weights = .ok t) :
    t.WellCut ∧ t.bounds = b ∧
      t.leaves.map Leaf.participant = List.range' first weights.length := by
  induction b, first, weights using divide.induct generalizing t with
  | case1 b first weights hle =>
    have hpos := List.length_pos_iff.2 hne
    obtain ⟨-, hs, rfl⟩ | ⟨hgt, -⟩ := divide_cases h
    · rw [show weights.length = 1 by omega]
      exact ⟨hs, rfl, rfl⟩
    · omega
  | case2 b first weights hgt count axis position parts ihl =>
    rename_i ihu
    obtain ⟨hle, -⟩ | ⟨-, position', lower, upper, hposition, rfl, hl, hu⟩ := divide_cases h
    · omega
    obtain rfl : position' = position := hposition
    have htake : (weights.take count).length = count := List.length_take_of_le (by omega)
    have hdrop : (weights.drop count).length = weights.length - count := List.length_drop
    obtain ⟨hlc, hlb, hll⟩ := ihl (List.ne_nil_of_length_pos (by omega)) hl
    obtain ⟨huc, hub, hul⟩ := ihu (List.ne_nil_of_length_pos (by omega)) hu
    have hls := hlc.isSolid
    have hus := huc.isSolid
    rw [hlb] at hls
    rw [hub] at hus
    refine ⟨⟨Box.isSolid_of_split hls hus, hlb, hub, hlc, huc⟩, rfl, ?_⟩
    rw [leaves, List.map_append, hll, hul, htake, hdrop]
    have hsum : weights.length = count + (weights.length - count) := by omega
    conv_rhs => rw [hsum]
    exact List.range'_append_1

/-! ### Visits -/

/-- Every leaf is visited once. -/
theorem visit_perm (eye : Point) (order : VisitOrder) (t : Tree) :
    (t.visit eye order).Perm t.leaves := by
  induction t with
  | leaf l => exact List.Perm.refl _
  | node axis position b lower upper ihl ihu =>
    unfold visit leaves
    simp only
    split
    · exact ihl.append ihu
    · exact ihl.append ihu
    · exact (ihu.append ihl).trans List.perm_append_comm
    · exact (ihu.append ihl).trans List.perm_append_comm

/-- The far leaves first are the near leaves first, backwards. -/
theorem visit_reverse (eye : Point) (t : Tree) :
    t.visit eye .backToFront = (t.visit eye .frontToBack).reverse := by
  induction t with
  | leaf l => rfl
  | node axis position b lower upper ihl ihu =>
    unfold visit
    by_cases he : axis.of eye ≤ position
    · simp only [he, decide_true]
      rw [List.reverse_append, ihl, ihu]
    · simp only [he, decide_false]
      rw [List.reverse_append, ihl, ihu]

/-- Two elements of a list follow one another in one of its halves, or across them. -/
theorem pair_sublist_append {α : Type} {a b : α} {l m : List α} (h : [a, b].Sublist (l ++ m)) :
    [a, b].Sublist l ∨ [a, b].Sublist m ∨ a ∈ l ∧ b ∈ m := by
  obtain ⟨s, u, hsu, hs, hu⟩ := List.sublist_append_iff.1 h
  match s, hsu with
  | [], hsu =>
    obtain rfl : u = [a, b] := hsu.symm
    exact .inr (.inl hu)
  | [c], hsu =>
    rw [List.singleton_append, List.cons.injEq] at hsu
    obtain ⟨rfl, rfl⟩ := hsu
    exact .inr (.inr ⟨List.singleton_sublist.1 hs, List.singleton_sublist.1 hu⟩)
  | c :: d :: s, hsu =>
    simp only [List.cons_append, List.cons.injEq, List.nil_eq, List.append_eq_nil_iff] at hsu
    obtain ⟨rfl, rfl, rfl, -⟩ := hsu
    exact .inl hs

variable {K : Type} [Field K] [LinearOrder K] [IsStrictOrderedRing K]

/-- Seen from a finite eye, no segment to a point of an earlier box passes through the interior of a
later one: at the cut that separates the two, the eye and the earlier box lie on one side. -/
theorem visit_unhidden {t : Tree} (h : t.WellCut) {eye : Point} (heye : eye.isFinite) {l m : Leaf}
    (hlm : [l, m].Sublist (t.visit eye .frontToBack)) {q : Vec3 K} (hq : l.bounds.Holds q) {s : K}
    (h0 : 0 ≤ s) (h1 : s ≤ 1) : ¬ m.bounds.Inside (Vec3.between (Vec3.exact eye) q s) := by
  induction t with
  | leaf n =>
    have hlen := hlm.length_le
    simp [visit] at hlen
  | node axis position b lower upper ihl ihu =>
    have hpos := h.position_isFinite
    have heye' : ((axis.of eye).isFinite : Prop) := Vec3.isFinite_iff.1 heye axis
    have hiff := Single.le_iff_toRat_le heye' hpos
    obtain ⟨-, -, -, hlower, hupper⟩ := id h
    unfold visit at hlm
    by_cases he : axis.of eye ≤ position
    · simp only [he, decide_true] at hlm
      rcases pair_sublist_append hlm with hlm | hlm | ⟨hl, hm⟩
      · exact ihl hlower hlm
      · exact ihu hupper hlm
      -- the eye and the earlier box lie below the plane, the later interior above it
      · intro hin
        have hl' := (visit_perm eye _ lower).mem_iff.1 hl
        have hm' := (visit_perm eye _ upper).mem_iff.1 hm
        have hbelow : axis.of (Vec3.between (Vec3.exact eye) q s) ≤ (position.toRat : K) := by
          refine Vec3.between_le h0 h1 ?_ ((hq axis).2.trans ?_)
          · rw [Axis.of_exact]
            exact Rat.cast_le.2 (hiff.1 he)
          · exact Rat.cast_le.2 (h.lower_le hl')
        have habove : (position.toRat : K) ≤ ((axis.of m.bounds.min).toRat : K) :=
          Rat.cast_le.2 (h.le_upper hm')
        exact absurd (hin axis).1 (not_lt.2 (hbelow.trans habove))
    · simp only [he, decide_false] at hlm
      rcases pair_sublist_append hlm with hlm | hlm | ⟨hl, hm⟩
      · exact ihu hupper hlm
      · exact ihl hlower hlm
      · intro hin
        have hl' := (visit_perm eye _ upper).mem_iff.1 hl
        have hm' := (visit_perm eye _ lower).mem_iff.1 hm
        have habove : (position.toRat : K) ≤ axis.of (Vec3.between (Vec3.exact eye) q s) := by
          refine Vec3.le_between h0 h1 ?_ (le_trans ?_ (hq axis).1)
          · rw [Axis.of_exact]
            exact Rat.cast_le.2 (not_le.1 fun hle => he (hiff.2 hle)).le
          · exact Rat.cast_le.2 (h.le_upper hl')
        have hbelow : ((axis.of m.bounds.max).toRat : K) ≤ (position.toRat : K) :=
          Rat.cast_le.2 (h.lower_le hm')
        exact absurd (hin axis).2 (not_lt.2 (hbelow.trans habove))

end Tree

/-! ### Partitions -/

namespace Partition

/-- An accepted partition is a division of its extent. -/
theorem divide_of_ofWeights {extent : Box} {weights : List Single} {p : Partition}
    (h : ofWeights extent weights = .ok p) :
    weights ≠ [] ∧ Tree.divide extent 0 weights = .ok p.root := by
  unfold ofWeights at h
  split at h
  · cases h
  · rename_i hne
    split at h
    · cases h
    · split at h
      · cases h
      · cases hd : Tree.divide extent 0 weights with
        | error e => rw [hd] at h; cases h
        | ok t =>
          rw [hd] at h
          cases h
          exact ⟨fun he => hne (by rw [he]; rfl), rfl⟩

/-- There is one leaf for each weight, and leaves are numbered in order. -/
theorem participants_eq {extent : Box} {weights : List Single} {p : Partition}
    (h : ofWeights extent weights = .ok p) :
    p.leaves.map Leaf.participant = List.range weights.length := by
  obtain ⟨hne, hd⟩ := divide_of_ofWeights h
  rw [List.range_eq_range']
  exact (Tree.divide_ok hne hd).2.2

theorem leaves_length {extent : Box} {weights : List Single} {p : Partition}
    (h : ofWeights extent weights = .ok p) : p.leaves.length = weights.length := by
  have hlength := congrArg List.length (participants_eq h)
  rwa [List.length_map, List.length_range] at hlength

/-- Leaves are numbered by their places. -/
theorem participant_of_getElem? {extent : Box} {weights : List Single} {p : Partition}
    (h : ofWeights extent weights = .ok p) {i : Nat} {l : Leaf} (hl : p.leaves[i]? = some l) :
    l.participant = i := by
  have hname : (p.leaves.map Leaf.participant)[i]? = some l.participant := by
    rw [List.getElem?_map, hl, Option.map_some]
  rw [participants_eq h] at hname
  obtain ⟨hi, hname⟩ := List.getElem?_eq_some_iff.1 hname
  rw [List.getElem_range] at hname
  exact hname.symm

/-- No two leaves belong to one participant. -/
theorem participants_nodup {extent : Box} {weights : List Single} {p : Partition}
    (h : ofWeights extent weights = .ok p) : (p.leaves.map Leaf.participant).Nodup := by
  rw [participants_eq h]
  exact List.nodup_range

/-- The visiting order of a partition has every participant, and nobody twice. -/
theorem ordered_perm {extent : Box} {weights : List Single} {p : Partition}
    (h : ofWeights extent weights = .ok p) (eye : Point) (order : VisitOrder) :
    (p.ordered eye order).Perm (List.range weights.length) := by
  rw [← participants_eq h]
  exact (Tree.visit_perm eye order p.root).map Leaf.participant

/-- Leaves are visited in the order of their participants. -/
theorem visit_of_ordered {extent : Box} {weights : List Single} {p : Partition}
    (h : ofWeights extent weights = .ok p) {eye : Point} {order : VisitOrder} {l m : Leaf}
    (hl : l ∈ p.leaves) (hm : m ∈ p.leaves)
    (hlm : [l.participant, m.participant].Sublist (p.ordered eye order)) :
    [l, m].Sublist (p.visit eye order) := by
  obtain ⟨pair, hpair, hmap⟩ := List.sublist_map_iff.1 hlm
  obtain ⟨l', rest, rfl, hl', hrest⟩ := List.map_eq_cons_iff.1 hmap.symm
  obtain ⟨m', rest, rfl, hm', hnil⟩ := List.map_eq_cons_iff.1 hrest
  obtain rfl := List.map_eq_nil_iff.1 hnil
  have hmem : ∀ n ∈ [l', m'], n ∈ p.leaves := fun n hn =>
    (Tree.visit_perm eye order p.root).mem_iff.1 (hpair.subset hn)
  have hinj := List.inj_on_of_nodup_map (participants_nodup h)
  rw [← hinj (hmem l' (by simp)) hl hl', ← hinj (hmem m' (by simp)) hm hm']
  exact hpair

/-- In every accepted partition, no box hides one that comes before it from front to back, which is
after it from back to front: no segment from a finite eye to a point of the earlier box passes through
the interior of the later one, wherever the eye is. -/
theorem ordered_unhidden {extent : Box} {weights : List Single} {p : Partition}
    (h : ofWeights extent weights = .ok p) {eye : Point} (heye : eye.isFinite) {l m : Leaf}
    (hl : l ∈ p.leaves) (hm : m ∈ p.leaves) :
    ([l.participant, m.participant].Sublist (p.ordered eye .frontToBack) ↔
      [m.participant, l.participant].Sublist (p.ordered eye .backToFront)) ∧
    ([l.participant, m.participant].Sublist (p.ordered eye .frontToBack) →
      ∀ {K : Type} [Field K] [LinearOrder K] [IsStrictOrderedRing K] (q : Vec3 K) (s : K),
        l.bounds.Holds q → 0 ≤ s → s ≤ 1 →
          ¬ m.bounds.Inside (Vec3.between (Vec3.exact eye) q s)) := by
  constructor
  · have hpair : [m.participant, l.participant] = [l.participant, m.participant].reverse := rfl
    rw [ordered, ordered, visit, visit, Tree.visit_reverse, List.map_reverse, hpair,
      List.reverse_sublist]
  · intro hlm K _ _ _ q s hq h0 h1
    obtain ⟨hne, hd⟩ := divide_of_ofWeights h
    exact Tree.visit_unhidden (Tree.divide_ok hne hd).1 heye (visit_of_ordered h hl hm hlm) hq h0 h1

/-- A slab in two halves, seen from above the cut: the upper half comes first and is not hidden. -/
theorem ordered_unhidden_halves :
    ∃ p, ofWeights ⟨Vec3.zero, ⟨2, 1, 1⟩⟩ [1, 1] = .ok p ∧
      p.ordered ⟨3, 0, 0⟩ .frontToBack = [1, 0] ∧
      ∀ (q : Vec3 Rat) (s : Rat), Box.Holds ⟨⟨1, 0, 0⟩, ⟨2, 1, 1⟩⟩ q → 0 ≤ s → s ≤ 1 →
        ¬ Box.Inside ⟨Vec3.zero, ⟨1, 1, 1⟩⟩ (Vec3.between (Vec3.exact ⟨3, 0, 0⟩) q s) := by
  let upper : Leaf := ⟨1, ⟨1, 0, 0⟩, ⟨2, 1, 1⟩⟩
  let lower : Leaf := ⟨0, Vec3.zero, ⟨1, 1, 1⟩⟩
  let p : Partition := ⟨.node .x 1 ⟨Vec3.zero, ⟨2, 1, 1⟩⟩ (.leaf lower) (.leaf upper)⟩
  have hp : ofWeights ⟨Vec3.zero, ⟨2, 1, 1⟩⟩ [1, 1] = .ok p := by decide +kernel
  have horder : p.ordered ⟨3, 0, 0⟩ .frontToBack = [1, 0] := by decide +kernel
  have hunhidden := ordered_unhidden hp (show Vec3.isFinite ⟨3, 0, 0⟩ by decide +kernel)
    (show upper ∈ p.leaves by decide +kernel) (show lower ∈ p.leaves by decide +kernel)
  refine ⟨p, hp, horder, ?_⟩
  intro q s hq h0 h1
  exact hunhidden.2 (by rw [horder]) q s hq h0 h1

end Partition
end SortLast
