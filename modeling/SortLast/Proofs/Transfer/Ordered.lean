import SortLast.Proofs.Scalar.Arithmetic
import SortLast.Proofs.Transfer.Lookup

/-!
# Transfer functions that were checked

The points of a transfer function that was checked when it was made are numbers from zero to one, and
stand in order. The order of the bit patterns, by which they were sorted, puts the two zeros one after
the other and agrees with the order of numbers otherwise, so the first point is lowest and the last one
highest, whatever there were of ties.

* `TransferFunction.Ordered`: the points of such a function.
* `TransferFunction.evaluate_below`, `TransferFunction.evaluate_above`: the colours at the two ends.
* `TransferFunction.exists_table_of_ofPoints`: tables of any width that memory can hold.
* `TransferFunction.evaluate_total`: every number has a colour, every table and the average opacity are
  computed, and the colours at the ends are those of the first and of the last point.
-/

namespace SortLast

namespace Single

/-- The order of bit patterns refines the order of numbers. -/
theorem key_le_of_totalKey_le {a b : Single} (h : a.totalKey ≤ b.totalKey) : a.key ≤ b.key := by
  unfold totalKey at h
  unfold key
  cases hs : a.signBit <;> cases ht : b.signBit <;> simp [hs, ht] at h ⊢ <;> omega

end Single

namespace TransferFunction

variable {points : List ControlPoint} {t : TransferFunction} {first last : ControlPoint} {v : Single}

/-! ### Order -/

/-- The points are numbers from zero to one, in order. -/
structure Ordered (t : TransferFunction) : Prop where
  unit : ∀ p ∈ t.points, isUnitValue p.value
  sorted : t.points.Pairwise fun p q => p.value ≤ q.value

theorem Ordered.isNaN (h : t.Ordered) {p : ControlPoint} (hp : p ∈ t.points) :
    p.value.isNaN = false := by
  have hunit := h.unit p hp
  simp only [isUnitValue, Bool.and_eq_true] at hunit
  exact Single.not_isNaN hunit.1.1

theorem Ordered.withDiscrete (h : t.Ordered) (bands : UInt32) : (t.withDiscrete bands).Ordered :=
  ⟨h.unit, h.sorted⟩

theorem ordered_of_ofPoints (h : ofPoints points = .ok t) : t.Ordered ∧ t.points.Perm points := by
  obtain ⟨hunit, -, hpoints⟩ := ofPoints_ok h
  have hperm : t.points.Perm points := hpoints ▸ List.mergeSort_perm _ _
  have hkeys : t.points.Pairwise fun p q => p.value.totalKey ≤ q.value.totalKey := by
    rw [hpoints]
    refine (List.pairwise_mergeSort (fun a b c hab hbc => ?_) (fun a b => ?_) points).imp
      of_decide_eq_true
    · exact decide_eq_true ((of_decide_eq_true hab).trans (of_decide_eq_true hbc))
    · simpa using Int.le_total a.value.totalKey b.value.totalKey
  have hunit' : ∀ p ∈ t.points, isUnitValue p.value := fun p hp => hunit p (hperm.mem_iff.1 hp)
  have hnumber : ∀ p ∈ t.points, p.value.isNaN = false := fun p hp =>
    Single.not_isNaN (isFinite_of_ofPoints h p hp)
  refine ⟨⟨hunit', hkeys.imp_of_mem fun hp hq hle => ?_⟩, hperm⟩
  exact Single.le_iff.2 ⟨hnumber _ hp, hnumber _ hq, Single.key_le_of_totalKey_le hle⟩

/-- Points further back in the list are not lower. -/
theorem Ordered.le_of_getElem? (h : t.Ordered) {i j : Nat} {p q : ControlPoint} (hij : i ≤ j)
    (hp : t.points[i]? = some p) (hq : t.points[j]? = some q) : p.value ≤ q.value := by
  rcases Nat.lt_or_eq_of_le hij with hlt | rfl
  · obtain ⟨hi, rfl⟩ := List.getElem?_eq_some_iff.1 hp
    obtain ⟨hj, rfl⟩ := List.getElem?_eq_some_iff.1 hq
    exact List.pairwise_iff_getElem.1 h.sorted i j hi hj hlt
  · rw [hp] at hq
    cases hq
    exact Single.le_refl (h.isNaN (List.mem_of_getElem? hp))

theorem Ordered.first_le (h : t.Ordered) (hfirst : t.points.head? = some first) {p : ControlPoint}
    (hp : p ∈ t.points) : first.value ≤ p.value := by
  obtain ⟨i, hi⟩ := List.mem_iff_getElem?.1 hp
  rw [List.head?_eq_getElem?] at hfirst
  exact h.le_of_getElem? (Nat.zero_le i) hfirst hi

theorem Ordered.le_last (h : t.Ordered) (hlast : t.points.getLast? = some last) {p : ControlPoint}
    (hp : p ∈ t.points) : p.value ≤ last.value := by
  obtain ⟨i, hi⟩ := List.mem_iff_getElem?.1 hp
  obtain ⟨hlt, -⟩ := List.getElem?_eq_some_iff.1 hi
  rw [List.getLast?_eq_getElem?] at hlast
  exact h.le_of_getElem? (Nat.le_sub_one_of_lt hlt) hi hlast

/-! ### The ends -/

/-- Without bands, values are looked up as they are. -/
theorem quantise_of_le_one (hsmooth : t.discrete ≤ 1) : t.quantise v = v :=
  if_neg (UInt32.not_lt.2 hsmooth)

theorem evaluate_below (hsmooth : t.discrete ≤ 1) (hfirst : t.points.head? = some first)
    (hv : v ≤ first.value) : t.evaluate v = .ok first.colour := by
  have hne : t.points ≠ [] := fun hnil => by
    rw [hnil] at hfirst
    cases hfirst
  rw [evaluate, quantise_of_le_one hsmooth, hfirst, List.getLast?_eq_some_getLast hne]
  exact if_pos hv

theorem evaluate_above (hsmooth : t.discrete ≤ 1) (hfirst : t.points.head? = some first)
    (hlast : t.points.getLast? = some last) (hlo : first.value < v) (hhi : last.value ≤ v) :
    t.evaluate v = .ok last.colour := by
  rw [evaluate, quantise_of_le_one hsmooth, hfirst, hlast]
  simp only [if_neg (Single.not_le_of_lt hlo), if_pos hhi]

/-! ### Tables -/

/-- A checked function has a table of every width that memory can hold. -/
theorem exists_table_of_ofPoints (h : ofPoints points = .ok t) (bands : UInt32) {width : Nat}
    (hwidth : width * 16 ≤ maxBufferBytes) :
    ∃ colours, (t.withDiscrete bands).table width = .ok colours ∧ colours.length = width := by
  by_cases hone : width = 1
  · obtain ⟨c, hc⟩ := exists_evaluate_of_ofPoints h bands (v := 0) (by decide)
    refine ⟨[c], ?_, hone.symm⟩
    rw [table, if_pos hone, hc]
    rfl
  · have htable : (t.withDiscrete bands).table width = (List.range width).mapM fun i =>
        (t.withDiscrete bands).evaluate (Single.ofNat i / Single.ofNat (width - 1)) := by
      have hcapacity : checkCapacity width 16 = .ok () := if_neg (Nat.not_lt.2 hwidth)
      rw [table, if_neg hone, hcapacity]
      rfl
    rw [htable]
    rcases hmap : (List.range width).mapM fun i =>
        (t.withDiscrete bands).evaluate (Single.ofNat i / Single.ofNat (width - 1)) with f | colours
    · obtain ⟨i, hi, hfault⟩ := exists_mem_of_mapM_error hmap
      have hlt := List.mem_range.1 hi
      rw [maxBufferBytes] at hwidth
      obtain ⟨c, hc⟩ := exists_evaluate_of_ofPoints h bands
        (Single.div_ofNat_isNaN (m := i) (n := width - 1) (by omega) (by omega) (by omega))
      rw [hc] at hfault
      cases hfault
    · exact ⟨colours, rfl, (length_of_mapM hmap).trans List.length_range⟩

theorem exists_meanOpacity_of_ofPoints (h : ofPoints points = .ok t) (bands : UInt32) :
    ∃ o, (t.withDiscrete bands).meanOpacity = .ok o := by
  have hfits : opacitySamples * 16 ≤ maxBufferBytes := by decide
  obtain ⟨colours, htable, -⟩ := exists_table_of_ofPoints h bands hfits
  rw [meanOpacity, htable]
  exact ⟨_, rfl⟩

/-- A function that was checked when it was made, with any number of bands: every number, infinities
among them, has a colour, and there are no faults of indices. A table is computed for every width whose
colours fit into memory, and refused for every other one before any value is looked up; the average
opacity is always computed. If there is a point, the first one in order is lowest and the last one
highest of those that were given, and without bands their colours hold from the ends on. -/
theorem evaluate_total (h : ofPoints points = .ok t) (bands : UInt32) :
    (∀ v : Single, v.isNaN = false → ∃ c, (t.withDiscrete bands).evaluate v = .ok c) ∧
    (∀ width, width * 16 ≤ maxBufferBytes →
      ∃ colours, (t.withDiscrete bands).table width = .ok colours ∧ colours.length = width) ∧
    (∀ width, maxBufferBytes < width * 16 →
      (t.withDiscrete bands).table width = .error .capacity) ∧
    (∃ o, (t.withDiscrete bands).meanOpacity = .ok o) ∧
    (points ≠ [] → ∃ first last, t.points.head? = some first ∧ t.points.getLast? = some last ∧
      (∀ p ∈ points, first.value ≤ p.value ∧ p.value ≤ last.value) ∧
      (bands ≤ 1 → ∀ v : Single,
        (v ≤ first.value → (t.withDiscrete bands).evaluate v = .ok first.colour) ∧
        (last.value < v → (t.withDiscrete bands).evaluate v = .ok last.colour))) := by
  obtain ⟨hordered, hperm⟩ := ordered_of_ofPoints h
  refine ⟨fun v => exists_evaluate_of_ofPoints h bands,
    fun width => exists_table_of_ofPoints h bands, ?_, exists_meanOpacity_of_ofPoints h bands, ?_⟩
  · intro width hwidth
    have hcapacity : checkCapacity width 16 = .error .capacity := if_pos hwidth
    have hone : width ≠ 1 := by
      rw [maxBufferBytes] at hwidth
      omega
    rw [table, if_neg hone, hcapacity]
    rfl
  · intro hne
    have hne' : t.points ≠ [] := fun hnil => hne (hnil ▸ hperm).nil_eq.symm
    have hfirst := List.head?_eq_some_head hne'
    have hlast := List.getLast?_eq_some_getLast hne'
    refine ⟨_, _, hfirst, hlast, fun p hp => ?_, fun hbands v => ?_⟩
    · have hmem := hperm.mem_iff.2 hp
      exact ⟨hordered.first_le hfirst hmem, hordered.le_last hlast hmem⟩
    · have hends := hordered.first_le hfirst (List.mem_of_getLast? hlast)
      exact ⟨evaluate_below hbands hfirst, fun hv => evaluate_above hbands hfirst hlast
        (Single.lt_of_le_of_lt hends hv) (Single.le_of_lt hv)⟩

/-- Both zeros are among the points, which are given from the highest to the lowest: the negative zero
comes first, and its colour holds below it. With three bands, even an infinity has a colour. -/
theorem evaluate_total_zeros :
    let points : List ControlPoint :=
      [⟨1, Vec4.one⟩, ⟨0, ⟨1, 0, 0, 1⟩⟩, ⟨⟨0x80000000⟩, ⟨0, 1, 0, 1⟩⟩]
    ∃ t, ofPoints points = .ok t ∧ t.evaluate ⟨0xbf800000⟩ = .ok ⟨0, 1, 0, 1⟩ ∧
      t.evaluate ⟨0x40000000⟩ = .ok Vec4.one ∧
      (∃ c, (t.withDiscrete 3).evaluate .infinity = .ok c) ∧
      (∃ colours, (t.withDiscrete 3).table 5 = .ok colours ∧ colours.length = 5) ∧
      ∃ o, (t.withDiscrete 3).meanOpacity = .ok o := by
  intro points
  have hmade : ofPoints points =
      .ok ⟨[⟨⟨0x80000000⟩, ⟨0, 1, 0, 1⟩⟩, ⟨0, ⟨1, 0, 0, 1⟩⟩, ⟨1, Vec4.one⟩], 0⟩ := by
    cbv
  obtain ⟨-, -, -, -, hends⟩ := evaluate_total hmade 0
  obtain ⟨heval, htable, -, hmean, -⟩ := evaluate_total hmade 3
  obtain ⟨first, last, hfirst, hlast, -, hcolours⟩ := hends (by decide)
  cases hfirst
  cases hlast
  exact ⟨_, hmade, (hcolours (by decide) _).1 (by decide), (hcolours (by decide) _).2 (by decide),
    heval _ (by decide), htable 5 (by decide), hmean⟩

/-- A table of `2 ^ 62` colours is larger than any memory. -/
theorem table_beyond_memory :
    ofPoints [⟨0, Vec4.zero⟩, ⟨1, Vec4.one⟩] = .ok grayscaleRamp ∧
      grayscaleRamp.table 4611686018427387904 = .error .capacity :=
  ⟨by cbv, by decide +kernel⟩

end TransferFunction
end SortLast
