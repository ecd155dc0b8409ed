import SortLast.Proofs.Partition.Tiling

/-!
# Ways through a partition

A partition is gone through in two ways: to all of its leaves, in an order that hangs on an eye, and
down to the leaf of a point. The first reaches every leaf once, whatever the comparisons with the eye
come to; the second ends where a search through the leaves in order would.

* `Tree.WellCut.find?_contains`: at every cut the descent takes the side of the first leaf that has the
  point.
* `Partition.ordered_complete`: the two orders are complete and each other's reverse.
* `Partition.locate_iff`: the participant of a point is the first one whose box has it.
-/

namespace SortLast

namespace Tree

/-- No leaf below a plane has a point that is not. -/
theorem WellCut.not_contains_of_lower {axis : Axis} {position : Single} {b : Box} {lower upper : Tree}
    (h : (node axis position b lower upper).WellCut) {q : Point} (hq : ¬ axis.of q ≤ position)
    {l : Leaf} (hl : l ∈ lower.leaves) : ¬ l.bounds.contains q := by
  intro hc
  obtain ⟨-, hlb, -, hlower, -⟩ := h
  have hmax := (hlower.leaf_le hl axis).2
  rw [hlb, Box.split_fst_max] at hmax
  exact hq (Single.le_trans (Box.contains_iff.1 hc axis).2 hmax)

/-- The way down ends at the first leaf that has the point. -/
theorem WellCut.find?_contains {t : Tree} (h : t.WellCut) {q : Point} (hq : t.bounds.contains q) :
    (t.leaves.find? fun l => l.bounds.contains q).map Leaf.participant = some (t.descend q) := by
  induction t with
  | leaf l =>
    change l.bounds.contains q = true at hq
    rw [leaves, List.find?_singleton, if_pos hq]
    rfl
  | node axis position b lower upper ihl ihu =>
    obtain ⟨-, hlb, hub, hlower, hupper⟩ := id h
    rw [leaves, List.find?_append, descend]
    by_cases hle : axis.of q ≤ position
    · have hfound := ihl hlower (by rw [hlb]; exact Box.split_fst_contains hq hle)
      obtain ⟨l, hl, -⟩ := Option.map_eq_some_iff.1 hfound
      rw [if_pos hle, ← hfound, hl, Option.some_or]
    · have hnumber := (Single.le_iff.1 (Box.contains_iff.1 hq axis).1).2.1
      have hge : position ≤ axis.of q :=
        (Single.le_or_le hnumber (Single.not_isNaN h.position_isFinite)).resolve_left hle
      have hnone : lower.leaves.find? (fun l => l.bounds.contains q) = none :=
        List.find?_eq_none.2 fun l hl => h.not_contains_of_lower hle hl
      rw [if_neg hle, hnone, Option.none_or]
      exact ihu hupper (by rw [hub]; exact Box.split_snd_contains hq hge)

/-- A point of a leaf is a point of the box of its tree. -/
theorem WellCut.contains_of_leaf {t : Tree} (h : t.WellCut) {l : Leaf} (hl : l ∈ t.leaves) {q : Point}
    (hq : l.bounds.contains q) : t.bounds.contains q := by
  rw [Box.contains_iff] at *
  intro a
  have hle := h.leaf_le hl a
  exact ⟨Single.le_trans hle.1 (hq a).1, Single.le_trans (hq a).2 hle.2⟩

end Tree

namespace Partition

variable {extent : Box} {weights : List Single} {p : Partition}

/-- From any eye, also one that is not a number, the back-to-front order has every participant once; each
participant's leaf is visited once, and under its number no other; and the front-to-back order is the
reverse, of the leaves as well as of their numbers. -/
theorem ordered_complete (h : ofWeights extent weights = .ok p) (eye : Point) :
    (p.ordered eye .backToFront).Perm (List.range p.participantCount) ∧
    (∀ order i l, p.leaf? i = some l → (p.visit eye order).count l = 1 ∧
      ∀ m ∈ p.visit eye order, m.participant = i → m = l) ∧
    p.visit eye .frontToBack = (p.visit eye .backToFront).reverse ∧
    p.ordered eye .frontToBack = (p.ordered eye .backToFront).reverse := by
  have hreverse : p.visit eye .frontToBack = (p.visit eye .backToFront).reverse := by
    rw [visit, visit, Tree.visit_reverse, List.reverse_reverse]
  refine ⟨?_, ?_, hreverse, ?_⟩
  · rw [participantCount, leaves_length h]
    exact ordered_perm h eye _
  · intro order i l hl
    have hperm : (p.visit eye order).Perm p.leaves := Tree.visit_perm eye order p.root
    have hmem : l ∈ p.leaves := List.mem_of_getElem? hl
    have hname := participant_of_getElem? h hl
    have hnodup := participants_nodup h
    constructor
    · rw [hperm.count_eq]
      exact List.count_eq_one_of_mem hnodup.of_map hmem
    · intro m hm hmi
      exact List.inj_on_of_nodup_map hnodup (hperm.mem_iff.1 hm) hmem (hmi.trans hname.symm)
  · rw [ordered, ordered, hreverse, List.map_reverse]

/-- A slab in three, seen from an eye of which nothing is known: every comparison fails, and the
order is still complete. -/
theorem ordered_complete_nan :
    ∃ p, ofWeights ⟨Vec3.zero, ⟨3, 1, 1⟩⟩ [1, 1, 1] = .ok p ∧
      (p.ordered (Vec3.splat .nan) .backToFront).Perm [0, 1, 2] ∧
      p.ordered (Vec3.splat .nan) .frontToBack =
        (p.ordered (Vec3.splat .nan) .backToFront).reverse := by
  let p : Partition := ⟨.node .x 1 ⟨Vec3.zero, ⟨3, 1, 1⟩⟩ (.leaf ⟨0, Vec3.zero, ⟨1, 1, 1⟩⟩)
    (.node .x 2 ⟨⟨1, 0, 0⟩, ⟨3, 1, 1⟩⟩ (.leaf ⟨1, ⟨1, 0, 0⟩, ⟨2, 1, 1⟩⟩)
      (.leaf ⟨2, ⟨2, 0, 0⟩, ⟨3, 1, 1⟩⟩))⟩
  have hp : ofWeights ⟨Vec3.zero, ⟨3, 1, 1⟩⟩ [1, 1, 1] = .ok p := by decide +kernel
  obtain ⟨hperm, -, -, hreverse⟩ := ordered_complete hp (Vec3.splat .nan)
  exact ⟨p, hp, hperm, hreverse⟩

/-! ### Points -/

/-- A search through the leaves finds whom a point belongs to. -/
theorem locate_eq_find? (h : ofWeights extent weights = .ok p) (q : Point) :
    p.locate q = (p.leaves.find? fun l => l.bounds.contains q).map Leaf.participant := by
  obtain ⟨hne, hd⟩ := divide_of_ofWeights h
  have hcut := (Tree.divide_ok hne hd).1
  rw [locate]
  split
  · rename_i hq
    exact (hcut.find?_contains hq).symm
  · rename_i hq
    have hnone : p.leaves.find? (fun l => l.bounds.contains q) = none :=
      List.find?_eq_none.2 fun l hl hc => hq (hcut.contains_of_leaf hl hc)
    rw [hnone, Option.map_none]

/-- A point of the extent belongs to the first participant whose box has it, faces included, so that one
on some of the cuts belongs to the lowest of those that touch it; a point outside belongs to nobody. -/
theorem locate_iff (h : ofWeights extent weights = .ok p) (q : Point) :
    (p.locate q = none ↔ ¬ extent.contains q) ∧
    ∀ i, p.locate q = some i ↔ ∃ l, p.leaf? i = some l ∧ l.bounds.contains q ∧
      ∀ m ∈ p.leaves, m.bounds.contains q → i ≤ m.participant := by
  constructor
  · obtain ⟨hne, hd⟩ := divide_of_ofWeights h
    rw [locate, Partition.extent, (Tree.divide_ok hne hd).2.1]
    split <;> simp_all
  · intro i
    rw [locate_eq_find? h, Option.map_eq_some_iff]
    constructor
    · rintro ⟨l, hfind, rfl⟩
      obtain ⟨hq, k, hk, hl, hfirst⟩ := List.find?_eq_some_iff_getElem.1 hfind
      have hplace : p.leaves[k]? = some l := by rw [List.getElem?_eq_getElem hk, hl]
      rw [participant_of_getElem? h hplace]
      refine ⟨l, hplace, hq, ?_⟩
      intro m hm hmq
      obtain ⟨j, hj, rfl⟩ := List.mem_iff_getElem.1 hm
      rw [participant_of_getElem? h (List.getElem?_eq_getElem hj)]
      by_contra hlt
      have hfalse := hfirst j (by omega)
      rw [hmq] at hfalse
      cases hfalse
    · rintro ⟨l, hl, hq, hleast⟩
      refine ⟨l, ?_, participant_of_getElem? h hl⟩
      obtain ⟨hi, hl'⟩ := List.getElem?_eq_some_iff.1 hl
      refine List.find?_eq_some_iff_getElem.2 ⟨hq, i, hi, hl', ?_⟩
      intro j hj
      have hname := participant_of_getElem? h (List.getElem?_eq_getElem (hj.trans hi))
      have hnot : ¬ (p.leaves[j].bounds.contains q) := by
        intro hc
        have hle := hleast _ (List.getElem_mem (hj.trans hi)) hc
        omega
      simpa using hnot

/-- A slab in three: a point on the second cut belongs to the second participant, not to the third. -/
theorem locate_iff_second_cut :
    ∃ p, ofWeights ⟨Vec3.zero, ⟨3, 1, 1⟩⟩ [1, 1, 1] = .ok p ∧
      p.locate ⟨2, 0, 1⟩ = some 1 ∧ p.locate ⟨4, 0, 1⟩ = none := by
  let second : Leaf := ⟨1, ⟨1, 0, 0⟩, ⟨2, 1, 1⟩⟩
  let p : Partition := ⟨.node .x 1 ⟨Vec3.zero, ⟨3, 1, 1⟩⟩ (.leaf ⟨0, Vec3.zero, ⟨1, 1, 1⟩⟩)
    (.node .x 2 ⟨⟨1, 0, 0⟩, ⟨3, 1, 1⟩⟩ (.leaf second) (.leaf ⟨2, ⟨2, 0, 0⟩, ⟨3, 1, 1⟩⟩))⟩
  have hp : ofWeights ⟨Vec3.zero, ⟨3, 1, 1⟩⟩ [1, 1, 1] = .ok p := by decide +kernel
  refine ⟨p, hp, ((locate_iff hp _).2 1).2 ⟨second, rfl, by decide +kernel, ?_⟩,
    (locate_iff hp _).1.2 (by decide +kernel)⟩
  decide +kernel

end Partition
end SortLast
