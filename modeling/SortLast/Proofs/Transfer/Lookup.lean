import SortLast.Proofs.Outcome
import SortLast.Proofs.Scalar.Order
import SortLast.Transfer

/-!
# Where a transfer function has no colour

A transfer function from a peer may hold control points of any values in any order. The bisection
between its first and its last point then still ends at a point that it has looked at, unless every
point that it looks at lies above the value: then there is no point to mix from.

* `probe`: where a bisection looks as long as every test fails.
* `bisect_eq_zero_iff`, `bisect_eq_succ`: what the result of a bisection says about any list.
* `TransferFunction.Misses`: the values that have no colour; `faults_evaluate` says that they are
  exactly these.
* `TransferFunction.Misses.first_isNaN`: only a function whose first point is not a number has any.
* `TransferFunction.faults_meanOpacity`: when there is no average opacity.
-/

namespace SortLast

/-! ### Bisection -/

/-- The position in which a bisection of `n` elements looks in round `k`, as long as every test
fails: the middle of what is left. -/
def probe (n k : Nat) : Nat := (n + 2 ^ k - 1) / 2 ^ k / 2

theorem probe_zero (n : Nat) : probe n 0 = n / 2 := by
  rw [probe, Nat.pow_zero, Nat.add_sub_cancel, Nat.div_one]

/-- A round leaves the larger half. -/
theorem probe_succ (n k : Nat) : probe n (k + 1) = probe (n - n / 2) k := by
  have hpow : 0 < 2 ^ k := Nat.two_pow_pos k
  have hhalf : n - n / 2 + 2 ^ k - 1 = (n + 2 ^ (k + 1) - 1) / 2 := by
    rw [Nat.pow_succ]
    omega
  rw [probe, probe, hhalf, Nat.div_div_eq_div_mul _ 2, Nat.mul_comm 2, ← Nat.pow_succ]

/-- In the end the bisection looks at the first element. -/
theorem exists_probe_eq_zero (n : Nat) : ∃ k, probe n k = 0 := by
  refine ⟨n, Nat.div_eq_of_lt ?_⟩
  rw [Nat.div_lt_iff_lt_mul (Nat.two_pow_pos n)]
  have hpow : n < 2 ^ n := Nat.lt_two_pow_self
  omega

section Bisection

variable {α : Type} {test : α → Bool} {xs : List α} {base size fuel : Nat}

theorem bisectFrom_of_le_one (h : size ≤ 1) :
    bisectFrom test xs base size (fuel + 1) = if (xs[base]?).any test then base + 1 else base := by
  rw [bisectFrom, if_pos h]
  cases xs[base]? <;> rfl

theorem bisectFrom_of_one_lt (h : 1 < size) :
    bisectFrom test xs base size (fuel + 1) = bisectFrom test xs
      (if (xs[base + size / 2]?).any test then base + size / 2 else base) (size - size / 2) fuel := by
  rw [bisectFrom, if_neg (Nat.not_le.2 h)]
  dsimp only
  cases xs[base + size / 2]? <;> rfl

theorem le_bisectFrom : base ≤ bisectFrom test xs base size fuel := by
  induction fuel generalizing base size with
  | zero => exact Nat.le_refl _
  | succ fuel ih =>
    rcases Nat.lt_or_ge 1 size with h | h
    · rw [bisectFrom_of_one_lt h]
      refine Nat.le_trans ?_ ih
      split
      · exact Nat.le_add_right _ _
      · exact Nat.le_refl _
    · rw [bisectFrom_of_le_one h]
      split
      · exact Nat.le_succ _
      · exact Nat.le_refl _

/-- The element before the result satisfies the test: a bisection moves only to elements that do. -/
theorem any_of_bisectFrom (hsize : 0 < size) (hfuel : size ≤ fuel)
    (hbase : 0 < base → (xs[base]?).any test) {n : Nat}
    (h : bisectFrom test xs base size fuel = n + 1) : (xs[n]?).any test := by
  induction fuel generalizing base size with
  | zero => omega
  | succ fuel ih =>
    rcases Nat.lt_or_ge 1 size with hs | hs
    · rw [bisectFrom_of_one_lt hs] at h
      refine ih (by omega) (by omega) ?_ h
      split
      · rename_i hany
        exact fun _ => hany
      · exact hbase
    · rw [bisectFrom_of_le_one hs] at h
      split at h
      · rename_i hany
        rwa [← Nat.succ_injective h]
      · rename_i hany
        exact absurd (hbase (by omega)) hany

theorem bisectFrom_eq_zero_iff (hsize : 0 < size) (hfuel : size ≤ fuel) :
    bisectFrom test xs 0 size fuel = 0 ↔ ∀ k, ¬ (xs[probe size k]?).any test := by
  induction fuel generalizing size with
  | zero => omega
  | succ fuel ih =>
    rcases Nat.lt_or_ge 1 size with hs | hs
    · rw [bisectFrom_of_one_lt hs, Nat.zero_add, ← Nat.and_forall_add_one]
      simp only [probe_zero, probe_succ]
      by_cases hany : (xs[size / 2]?).any test
      · rw [if_pos hany]
        have hle : size / 2 ≤ bisectFrom test xs (size / 2) (size - size / 2) fuel := le_bisectFrom
        exact iff_of_false (by omega) fun h => h.1 hany
      · rw [if_neg hany, ih (by omega) (by omega)]
        exact (and_iff_right hany).symm
    · obtain rfl : size = 1 := by omega
      have hprobe : ∀ k, probe 1 k = 0 := fun k => by
        rw [probe, Nat.add_sub_cancel_left, Nat.div_self (Nat.two_pow_pos k)]
      rw [bisectFrom_of_le_one (Nat.le_refl 1)]
      simp only [hprobe]
      split <;> simp_all

/-- A bisection finds nothing exactly if every element that it looks at fails the test. -/
theorem bisect_eq_zero_iff :
    bisect test xs = 0 ↔ ∀ k, ∀ x ∈ xs[probe xs.length k]?, ¬ test x := by
  have hany : ∀ o : Option α, ¬ o.any test ↔ ∀ x ∈ o, ¬ test x := fun o => by
    cases o <;> simp
  simp only [← hany]
  rcases Nat.eq_zero_or_pos xs.length with h | h
  · obtain rfl := List.eq_nil_of_length_eq_zero h
    exact iff_of_true rfl fun _ => Bool.false_ne_true
  · exact bisectFrom_eq_zero_iff h (Nat.le_succ _)

theorem bisect_eq_succ {n : Nat} (h : bisect test xs = n + 1) : ∃ x, xs[n]? = some x ∧ test x := by
  rcases Nat.eq_zero_or_pos xs.length with hlength | hlength
  · obtain rfl := List.eq_nil_of_length_eq_zero hlength
    cases h
  · have hany := any_of_bisectFrom hlength (Nat.le_succ _) (fun h0 => absurd h0 (Nat.lt_irrefl 0)) h
    exact (Option.any_eq_true _ _).1 hany

end Bisection

/-! ### Colours -/

namespace TransferFunction

variable {t : TransferFunction} {v : Single}

/-- There is no colour for a value that is looked up: it lies strictly between the first and the last
point, or cannot be compared with them, and no point that the bisection looks at is at or below it. -/
structure Misses (t : TransferFunction) (v : Single) : Prop where
  nonempty : t.points ≠ []
  first : ∀ p ∈ t.points.head?, ¬ v ≤ p.value
  last : ∀ p ∈ t.points.getLast?, ¬ p.value ≤ v
  probes : ∀ k, ∀ p ∈ t.points[probe t.points.length k]?, ¬ p.value ≤ v

theorem Misses.bisect_eq_zero (h : t.Misses v) :
    bisect (fun p => decide (p.value ≤ v)) t.points = 0 :=
  bisect_eq_zero_iff.2 fun k p hp => by simpa using h.probes k p hp

/-- Between points that it can tell apart, a bisection that finds a point finds the next one too. -/
theorem getElem?_of_bisect_eq_succ {lower : Nat} (hlast : ∀ p ∈ t.points.getLast?, ¬ p.value ≤ v)
    (h : bisect (fun p => decide (p.value ≤ v)) t.points = lower + 1) :
    ∃ a b, t.points[lower]? = some a ∧ t.points[lower + 1]? = some b := by
  obtain ⟨a, ha, hle⟩ := bisect_eq_succ h
  obtain ⟨hlt, -⟩ := List.getElem?_eq_some_iff.1 ha
  have hnext : lower + 1 < t.points.length := by
    by_contra hge
    have hlower : lower = t.points.length - 1 := by omega
    rw [hlower, ← List.getLast?_eq_getElem?] at ha
    exact hlast a ha (of_decide_eq_true hle)
  exact ⟨a, _, ha, List.getElem?_eq_getElem hnext⟩

/-- A value has no colour exactly if the lookup of the quantised value misses. -/
theorem faults_evaluate {value : Single} :
    Faults (t.evaluate value) ↔ t.Misses (t.quantise value) := by
  rw [evaluate]
  generalize t.quantise value = v
  rcases hhead : t.points.head? with - | first
  · exact iff_of_false (not_faults_ok _) fun h => h.nonempty (List.head?_eq_none_iff.1 hhead)
  rcases hlast : t.points.getLast? with - | last
  · exact iff_of_false (not_faults_ok _) fun h => h.nonempty (List.getLast?_eq_none_iff.1 hlast)
  dsimp only
  by_cases hf : v ≤ first.value
  · rw [if_pos hf]
    exact iff_of_false (not_faults_ok _) fun h => h.first first hhead hf
  by_cases hl : last.value ≤ v
  · rw [if_neg hf, if_pos hl]
    exact iff_of_false (not_faults_ok _) fun h => h.last last hlast hl
  rw [if_neg hf, if_neg hl]
  have hlast' : ∀ p ∈ t.points.getLast?, ¬ p.value ≤ v := by
    rw [hlast]
    rintro p ⟨⟩
    exact hl
  rcases hb : bisect (fun p => decide (p.value ≤ v)) t.points with - | lower
  · have hmisses : t.Misses v := {
      nonempty := fun hnil => by rw [hnil] at hhead; cases hhead
      first := by
        rw [hhead]
        rintro p ⟨⟩
        exact hf
      last := hlast'
      probes := fun k p hp hle => bisect_eq_zero_iff.1 hb k p hp (decide_eq_true hle) }
    rw [hb]
    exact iff_of_true (faults_error _) hmisses
  · obtain ⟨a, b, ha, hb'⟩ := getElem?_of_bisect_eq_succ hlast' hb
    rw [hb]
    dsimp only
    rw [ha, hb']
    refine iff_of_false (not_faults_ok _) fun h => ?_
    rw [h.bisect_eq_zero] at hb
    cases hb

/-- Among the values that are numbers, only a function whose first point is none has one without a
colour: in the end the bisection looks at that point. -/
theorem Misses.first_isNaN (h : t.Misses v) (hv : v.isNaN = false) :
    ∀ p ∈ t.points.head?, p.value.isNaN := by
  intro p hp
  by_contra hnan
  rcases Single.le_or_le hv (Bool.eq_false_iff.2 hnan) with hle | hle
  · exact h.first p hp hle
  · obtain ⟨k, hk⟩ := exists_probe_eq_zero t.points.length
    exact h.probes k p (by rw [hk, ← List.head?_eq_getElem?]; exact hp) hle

/-- Quantising leads from numbers to numbers only. -/
theorem quantise_isNaN (hv : v.isNaN = false) : (t.quantise v).isNaN = false := by
  unfold quantise
  split
  · exact Single.min_isNaN rfl
  · exact hv

/-- The points that a function is made from are checked and sorted. -/
theorem ofPoints_ok {points : List ControlPoint} (h : ofPoints points = .ok t) :
    (∀ p ∈ points, isUnitValue p.value) ∧ t.discrete = 0 ∧
      t.points = points.mergeSort fun a b => decide (a.value.totalKey ≤ b.value.totalKey) := by
  unfold ofPoints at h
  split at h
  · cases h
  · rename_i hfind
    cases h
    exact ⟨fun p hp => by simpa using List.find?_eq_none.1 hfind p hp, rfl, rfl⟩

theorem isFinite_of_ofPoints {points : List ControlPoint} (h : ofPoints points = .ok t) :
    ∀ p ∈ t.points, p.value.isFinite := by
  obtain ⟨hunit, -, hpoints⟩ := ofPoints_ok h
  intro p hp
  rw [hpoints, List.mem_mergeSort] at hp
  have hp := hunit p hp
  simp only [isUnitValue, Bool.and_eq_true] at hp
  exact hp.1.1

/-- A function that has been checked when it was made has a colour for every number. -/
theorem exists_evaluate_of_ofPoints {points : List ControlPoint} (h : ofPoints points = .ok t)
    (bands : UInt32) (hv : v.isNaN = false) : ∃ c, (t.withDiscrete bands).evaluate v = .ok c := by
  rcases he : (t.withDiscrete bands).evaluate v with f | c
  · have hmisses := faults_evaluate.1 ⟨f, he⟩
    have hnan := hmisses.first_isNaN (quantise_isNaN hv) _ (List.head_mem_head? hmisses.nonempty)
    rw [Single.not_isNaN (isFinite_of_ofPoints h _ (List.head_mem hmisses.nonempty))] at hnan
    cases hnan
  · exact ⟨c, rfl⟩

/-! ### Tables -/

/-- The value of sample number `i` of the average opacity. -/
def sample (i : Nat) : Single := Single.ofNat i / Single.ofNat (opacitySamples - 1)

theorem sample_isNaN : ∀ i < opacitySamples, (sample i).isNaN = false := by decide +kernel

/-- There is no average opacity exactly if some sample has no colour. -/
theorem faults_meanOpacity :
    Faults t.meanOpacity ↔ ∃ i < opacitySamples, t.Misses (t.quantise (sample i)) := by
  have htable : t.table opacitySamples =
      (List.range opacitySamples).mapM fun i => t.evaluate (sample i) := rfl
  rw [meanOpacity, faults_bind, htable, faults_mapM]
  simp only [List.mem_range, faults_evaluate, not_faults_pure, and_false, exists_false, or_false]

end TransferFunction
end SortLast
