import Mathlib.Data.Nat.Log
import SortLast.Proofs.Partition.Tiling

/-!
# The shape of a partition

Where a box is cut depends on the extent and on the weights. Who is on which side of a cut does not:
the participants of a box are halved, the odd one going to the upper part.

* `Tree.Halves`: the cuts halve the participants; `Tree.divide_halves` shows that this is what dividing
  a box makes.
* `Tree.Halves.participants`, `Tree.Halves.depth_eq`, `Tree.Halves.sameShape`: who has a leaf, how deep
  the cuts go, and that nothing else is left open.
* `Partition.shape_of_count`: the same of every accepted partition.
-/

namespace SortLast
namespace Tree

/-- The cuts of a tree halve `count` participants from `first` on: the lower part of each cut has the
first half of them, rounded down, and the upper part has the others. -/
def Halves : Tree → Nat → Nat → Prop
  | leaf l, first, count => count = 1 ∧ l.participant = first
  | node _ _ _ lower upper, first, count =>
    2 ≤ count ∧ lower.Halves first (count / 2) ∧
      upper.Halves (first + count / 2) (count - count / 2)

/-- Trees with the same participants on the sides of the same cuts, wherever the cuts are. -/
def SameShape : Tree → Tree → Prop
  | leaf l, leaf m => l.participant = m.participant
  | node _ _ _ lower upper, node _ _ _ lower' upper' =>
    lower.SameShape lower' ∧ upper.SameShape upper'
  | _, _ => False

/-- What dividing a box among several participants makes. -/
theorem divide_halves {b : Box} {first : Nat} {weights : List Single} {t : Tree}
    (hne : weights ≠ []) (h : divide b first weights = .ok t) : t.Halves first weights.length := by
  induction b, first, weights using divide.induct generalizing t with
  | case1 b first weights hle =>
    have hpos := List.length_pos_iff.2 hne
    obtain ⟨-, -, rfl⟩ | ⟨hgt, -⟩ := divide_cases h
    · exact ⟨by omega, rfl⟩
    · omega
  | case2 b first weights hgt count axis position parts ihl =>
    rename_i ihu
    obtain ⟨hle, -⟩ | ⟨-, position', lower, upper, hposition, rfl, hl, hu⟩ := divide_cases h
    · omega
    obtain rfl : position' = position := hposition
    have htake : (weights.take count).length = count := List.length_take_of_le (by omega)
    have hdrop : (weights.drop count).length = weights.length - count := List.length_drop
    have hlower := ihl (List.ne_nil_of_length_pos (by omega)) hl
    have hupper := ihu (List.ne_nil_of_length_pos (by omega)) hu
    rw [htake] at hlower
    rw [hdrop] at hupper
    exact ⟨by omega, hlower, hupper⟩

variable {t u s : Tree} {first count : Nat}

/-- The leaves have the participants in order. -/
theorem Halves.participants (h : t.Halves first count) :
    t.leaves.map Leaf.participant = List.range' first count := by
  induction t generalizing first count with
  | leaf l =>
    obtain ⟨rfl, rfl⟩ := h
    rfl
  | node axis position b lower upper ihl ihu =>
    obtain ⟨hcount, hlower, hupper⟩ := h
    have hsum : count = count / 2 + (count - count / 2) := by omega
    rw [leaves, List.map_append, ihl hlower, ihu hupper]
    conv_rhs => rw [hsum]
    exact List.range'_append_1

theorem Halves.of_mem_subtrees (h : t.Halves first count) (hs : s ∈ t.subtrees) :
    ∃ first' count', s.Halves first' count' := by
  induction t generalizing first count with
  | leaf l =>
    rw [subtrees, List.mem_singleton] at hs
    rw [hs]
    exact ⟨first, count, h⟩
  | node axis position b lower upper ihl ihu =>
    rw [subtrees, List.mem_cons, List.mem_append] at hs
    rcases hs with rfl | hs | hs
    · exact ⟨first, count, h⟩
    · exact ihl h.2.1 hs
    · exact ihu h.2.2 hs

/-- The larger half decides how often a count can be halved. -/
theorem clog_half (hcount : 2 ≤ count) :
    Nat.clog 2 count = 1 + max (Nat.clog 2 (count / 2)) (Nat.clog 2 (count - count / 2)) := by
  have hrec := Nat.clog_of_two_le (b := 2) Nat.one_lt_two hcount
  have hhalf : (count + 2 - 1) / 2 = count - count / 2 := by omega
  have hmono : Nat.clog 2 (count / 2) ≤ Nat.clog 2 (count - count / 2) :=
    Nat.clog_mono_right 2 (by omega)
  rw [hrec, hhalf, max_eq_right hmono, Nat.add_comm]

theorem Halves.depth_eq (h : t.Halves first count) : t.depth = Nat.clog 2 count := by
  induction t generalizing first count with
  | leaf l =>
    obtain ⟨rfl, -⟩ := h
    exact (Nat.clog_one_right 2).symm
  | node axis position b lower upper ihl ihu =>
    obtain ⟨hcount, hlower, hupper⟩ := h
    rw [depth, ihl hlower, ihu hupper, clog_half hcount]

theorem Halves.sameShape (ht : t.Halves first count) (hu : u.Halves first count) :
    t.SameShape u := by
  induction t generalizing u first count with
  | leaf l =>
    obtain ⟨rfl, rfl⟩ := ht
    cases u with
    | leaf m => exact hu.2.symm
    | node axis position b lower upper => exact absurd hu.1 (by omega)
  | node axis position b lower upper ihl ihu =>
    obtain ⟨hcount, hlower, hupper⟩ := ht
    cases u with
    | leaf m => exact absurd hu.1 (by omega)
    | node axis' position' b' lower' upper' => exact ⟨ihl hlower hu.2.1, ihu hupper hu.2.2⟩

end Tree

namespace Partition

theorem exists_of_isOk {extent : Box} {weights : List Single}
    (h : (ofWeights extent weights).isOk) : ∃ p, ofWeights extent weights = .ok p := by
  cases hp : ofWeights extent weights with
  | error e => rw [hp] at h; cases h
  | ok p => exact ⟨p, rfl⟩

theorem root_halves {extent : Box} {weights : List Single} {p : Partition}
    (h : ofWeights extent weights = .ok p) : p.root.Halves 0 weights.length := by
  obtain ⟨hne, hd⟩ := divide_of_ofWeights h
  exact Tree.divide_halves hne hd

/-- The number of participants alone shapes an accepted partition. It has one leaf for each of them, in
order; every cut of `count` participants from `first` on gives the first half of them, rounded down, to
its lower part and the others to its upper part; the depth is the logarithm of their number, rounded
up; and another extent and other weights for as many participants give the same cuts at other places. -/
theorem shape_of_count {extent : Box} {weights : List Single} {p : Partition}
    (h : ofWeights extent weights = .ok p) :
    p.participantCount = weights.length ∧
    p.leaves.map Leaf.participant = List.range weights.length ∧
    (∀ i, (p.leaf? i).map Leaf.participant = if i < weights.length then some i else none) ∧
    (∀ axis position b lower upper, .node axis position b lower upper ∈ p.root.subtrees →
      ∃ first count, 2 ≤ count ∧
        (Tree.node axis position b lower upper).leaves.map Leaf.participant =
          List.range' first count ∧
        lower.leaves.map Leaf.participant = List.range' first (count / 2) ∧
        upper.leaves.map Leaf.participant =
          List.range' (first + count / 2) (count - count / 2)) ∧
    p.depth = Nat.clog 2 weights.length ∧
    ∀ {extent' weights' p'}, ofWeights extent' weights' = .ok p' →
      weights'.length = weights.length → p.root.SameShape p'.root := by
  have hroot := root_halves h
  have hnames := participants_eq h
  refine ⟨leaves_length h, hnames, ?_, ?_, hroot.depth_eq, ?_⟩
  · intro i
    rw [leaf?, ← List.getElem?_map, hnames]
    split
    · rename_i hi
      exact List.getElem?_range hi
    · rename_i hi
      exact List.getElem?_eq_none (by rw [List.length_range]; omega)
  · intro axis position b lower upper hmem
    obtain ⟨first, count, hnode⟩ := hroot.of_mem_subtrees hmem
    exact ⟨first, count, hnode.1, hnode.participants, hnode.2.1.participants,
      hnode.2.2.participants⟩
  · intro extent' weights' p' h' hlength
    have hroot' := root_halves h'
    rw [hlength] at hroot'
    exact hroot.sameShape hroot'

/-- Five participants, with equal weights and with very different ones: three cuts deep, and nobody
changes sides. -/
theorem shape_of_count_five :
    ∃ p p', ofWeights ⟨Vec3.zero, ⟨5, 1, 1⟩⟩ [1, 1, 1, 1, 1] = .ok p ∧
      ofWeights ⟨Vec3.zero, ⟨1, 2, 7⟩⟩ [9, 1, 4, 1, 1] = .ok p' ∧
      p.leaves.map Leaf.participant = [0, 1, 2, 3, 4] ∧ p.depth = 3 ∧ p'.depth = 3 ∧
      p.root.SameShape p'.root := by
  have hok : (ofWeights ⟨Vec3.zero, ⟨5, 1, 1⟩⟩ [1, 1, 1, 1, 1]).isOk := by decide +kernel
  have hok' : (ofWeights ⟨Vec3.zero, ⟨1, 2, 7⟩⟩ [9, 1, 4, 1, 1]).isOk := by decide +kernel
  obtain ⟨p, hp⟩ := exists_of_isOk hok
  obtain ⟨p', hp'⟩ := exists_of_isOk hok'
  obtain ⟨-, hnames, -, -, hdepth, hshape⟩ := shape_of_count hp
  obtain ⟨-, -, -, -, hdepth', -⟩ := shape_of_count hp'
  have hlog : Nat.clog 2 5 = 3 := by decide
  exact ⟨p, p', hp, hp', hnames, hdepth.trans hlog, hdepth'.trans hlog, hshape hp' rfl⟩

end Partition
end SortLast
