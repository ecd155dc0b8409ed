import SortLast.Proofs.Compositing.Opaque
import SortLast.Proofs.Transfer.Ordered

/-!
# Colours between control points

Between two neighbouring points of a checked transfer function, the bisection finds the lower one, and
the colour is a mixture of both. At the lower point itself, the mixture is that point's colour without a
rounding error. Points that are too near to each other are not mixed: the upper one's colour holds from
the lower one on, so the lower point's own colour is seen nowhere, unless it is the first of all.

* `bisect_of_splits`: a bisection counts the elements up to a split.
* `TransferFunction.evaluate_segment`: the colour between two neighbouring points.
* `TransferFunction.between_lower`: the mixture at its lower end.
* `TransferFunction.Crowds`: a neighbour that is too near to be mixed with.
* `TransferFunction.evaluate_controlPoint`: the colour at every point.
-/

namespace SortLast

/-! ### Bisection at a split -/

/-- The first `n` elements satisfy a test, and no others do. -/
def Splits {α : Type} (test : α → Bool) (xs : List α) (n : Nat) : Prop :=
  ∀ k x, xs[k]? = some x → (test x ↔ k < n)

section Bisection

variable {α : Type} {test : α → Bool} {xs : List α} {base size fuel n : Nat}

theorem Splits.any_iff (h : Splits test xs n) {k : Nat} (hk : k < xs.length) :
    (xs[k]?).any test ↔ k < n := by
  rw [List.getElem?_eq_getElem hk, Option.any_some]
  exact h k _ (List.getElem?_eq_getElem hk)

/-- The split stays in the range that is searched. -/
theorem bisectFrom_of_splits (h : Splits test xs n) (hsize : 0 < size) (hfuel : size ≤ fuel)
    (hlength : base + size ≤ xs.length) (hbase : base ≤ n) (hn : n ≤ base + size) :
    bisectFrom test xs base size fuel = n := by
  induction fuel generalizing base size with
  | zero => omega
  | succ fuel ih =>
    rcases Nat.lt_or_ge 1 size with hs | hs
    · have hany := h.any_iff (k := base + size / 2) (by omega)
      rw [bisectFrom_of_one_lt hs]
      split
      · rename_i hmid
        rw [hany] at hmid
        exact ih (by omega) (by omega) (by omega) (by omega) (by omega)
      · rename_i hmid
        rw [hany] at hmid
        exact ih (by omega) (by omega) (by omega) (by omega) (by omega)
    · have hany := h.any_iff (k := base) (by omega)
      rw [bisectFrom_of_le_one hs]
      split
      · rename_i hlast
        rw [hany] at hlast
        omega
      · rename_i hlast
        rw [hany] at hlast
        omega

/-- A bisection counts the elements up to the split. -/
theorem bisect_of_splits (h : Splits test xs n) (hn : n ≤ xs.length) : bisect test xs = n := by
  rcases Nat.eq_zero_or_pos xs.length with hlength | hlength
  · obtain rfl := List.eq_nil_of_length_eq_zero hlength
    exact (Nat.le_zero.1 hn).symm
  · exact bisectFrom_of_splits h hlength (Nat.le_succ _) (by omega) (Nat.zero_le n) (by omega)

end Bisection

/-! ### Mixtures -/

/-- At the fraction zero, a mixture of finite scalars is the first one. -/
theorem Single.lerp_start {a b s : Single} (ha : a.isFinite) (hb : b.isFinite) (hs : s.isFinite)
    (h0 : s.toRat = 0) : (a.lerp b s).isFinite ∧ (a.lerp b s).toRat = a.toRat := by
  have hrest := sub_rounded toRat_one.1 hs
  rw [h0, sub_zero] at hrest
  obtain ⟨hfull, hone⟩ := hrest.eq toRat_one.1
  have hleft := mul_rounded ha hfull
  rw [hone, toRat_one.2, mul_one] at hleft
  obtain ⟨hfin, hvalue⟩ := hleft.eq ha
  have hright := mul_rounded hb hs
  rw [h0, mul_zero, ← toRat_zero.2] at hright
  obtain ⟨hnone, hzero⟩ := hright.eq toRat_zero.1
  have hsum := add_rounded hfin hnone
  rw [hvalue, hzero, toRat_zero.2, add_zero] at hsum
  exact hsum.eq ha

theorem Vec4.lerp_start {a b : Colour} {s : Single} (ha : a.IsFinite) (hb : b.IsFinite)
    (hs : s.isFinite) (h0 : s.toRat = 0) : (a.lerp b s).Exact a :=
  ⟨Single.lerp_start ha.1 hb.1 hs h0, Single.lerp_start ha.2.1 hb.2.1 hs h0,
    Single.lerp_start ha.2.2.1 hb.2.2.1 hs h0, Single.lerp_start ha.2.2.2 hb.2.2.2 hs h0⟩

namespace TransferFunction

variable {points : List ControlPoint} {t : TransferFunction} {a b : ControlPoint} {v : Single}
  {i : Nat}

theorem fraction_of_isUnitValue (h : isUnitValue v) : v.Fraction := by
  simp only [isUnitValue, Bool.and_eq_true, decide_eq_true_eq] at h
  obtain ⟨⟨hfin, hlo⟩, hhi⟩ := h
  rw [Single.le_iff_toRat_le Single.toRat_zero.1 hfin, Single.toRat_zero.2] at hlo
  rw [Single.le_iff_toRat_le hfin Single.toRat_one.1, Single.toRat_one.2] at hhi
  exact ⟨hfin, hlo, hhi⟩

/-- At its lower point, a mixture is that point's colour. -/
theorem between_lower (hunit : isUnitValue a.value) (hunit' : isUnitValue b.value)
    (ha : a.colour.IsFinite) (hb : b.colour.IsFinite) (hwide : Single.epsilon < b.value - a.value) :
    (between a b a.value).Exact a.colour := by
  have hlower := fraction_of_isUnitValue hunit
  have hupper := fraction_of_isUnitValue hunit'
  have hspan : (b.value - a.value).isFinite := by
    rw [(Single.sub_rounded hupper.isFinite hlower.isFinite).isFinite_iff]
    calc |b.value.toRat - a.value.toRat| ≤ 1 := by
          rw [abs_le]
          constructor <;> linarith [hlower.nonneg, hlower.le_one, hupper.nonneg, hupper.le_one]
      _ < Format.binary32.limit := by norm_num [Format.limit, Format.binary32]
  have hpos : (b.value - a.value).toRat ≠ 0 := by
    have heps : (0 : Single) < Single.epsilon := by decide
    have hlt := Single.lt_of_lt_of_le heps (Single.le_of_lt hwide)
    rw [Single.lt_iff_toRat_lt Single.toRat_zero.1 hspan, Single.toRat_zero.2] at hlt
    exact hlt.ne'
  have hself := Single.sub_rounded hlower.isFinite hlower.isFinite
  rw [sub_self, ← Single.toRat_zero.2] at hself
  obtain ⟨hfin, hzero⟩ := hself.eq Single.toRat_zero.1
  have hfraction := Single.div_rounded hfin hspan hpos
  rw [hzero, Single.toRat_zero.2, zero_div, ← Single.toRat_zero.2] at hfraction
  obtain ⟨hfin', hzero'⟩ := hfraction.eq Single.toRat_zero.1
  rw [between, if_neg (Single.not_le_of_lt hwide)]
  exact Vec4.lerp_start ha hb hfin' (hzero'.trans Single.toRat_zero.2)

/-! ### Segments -/

/-- The points up to the lower end of a segment are those at or below a value within it. -/
theorem Ordered.splits (h : t.Ordered) (ha : t.points[i]? = some a) (hb : t.points[i + 1]? = some b)
    (hlo : a.value ≤ v) (hhi : v < b.value) :
    Splits (fun p : ControlPoint => decide (p.value ≤ v)) t.points (i + 1) := by
  intro k p hp
  rw [decide_eq_true_iff]
  constructor
  · intro hle
    by_contra hk
    exact Single.not_le_of_lt hhi (Single.le_trans (h.le_of_getElem? (Nat.le_of_not_lt hk) hb hp) hle)
  · intro hk
    exact Single.le_trans (h.le_of_getElem? (Nat.le_of_lt_succ hk) hp ha) hlo

/-- Between two neighbouring points, above the first one of all, the colour is the one between them. -/
theorem evaluate_segment (h : t.Ordered) (hsmooth : t.discrete ≤ 1) {first : ControlPoint}
    (hfirst : t.points.head? = some first) (ha : t.points[i]? = some a)
    (hb : t.points[i + 1]? = some b) (habove : first.value < v) (hlo : a.value ≤ v)
    (hhi : v < b.value) : t.evaluate v = .ok (between a b v) := by
  have hmem := List.mem_of_getElem? hb
  have hlast := List.getLast?_eq_some_getLast (List.ne_nil_of_mem hmem)
  have hbelow := Single.not_le_of_lt (Single.lt_of_lt_of_le hhi (h.le_last hlast hmem))
  obtain ⟨hlt, -⟩ := List.getElem?_eq_some_iff.1 ha
  rw [evaluate, quantise_of_le_one hsmooth, hfirst, hlast]
  simp only [if_neg (Single.not_le_of_lt habove), if_neg hbelow,
    bisect_of_splits (h.splits ha hb hlo hhi) hlt, ha, hb]

/-! ### Control points -/

/-- Point number `i`, which is not the first one, is followed by a point that is too near to be mixed
with. -/
def Crowds (t : TransferFunction) (i : Nat) (next : ControlPoint) : Prop :=
  0 < i ∧ t.points[i + 1]? = some next ∧
    ∃ p, t.points[i]? = some p ∧ next.value - p.value ≤ Single.epsilon

/-- No two points have the same value. -/
def Distinct (points : List ControlPoint) : Prop :=
  points.Pairwise fun p q => ¬ p.value.sameValue q.value

instance (points : List ControlPoint) : Decidable (Distinct points) :=
  inferInstanceAs (Decidable (List.Pairwise _ _))

/-- The points of a checked function without two points of one value rise from each to the next. -/
theorem Ordered.lt_of_lt (h : t.Ordered) (hd : Distinct t.points) {j : Nat} (hij : i < j)
    (ha : t.points[i]? = some a) (hb : t.points[j]? = some b) : a.value < b.value := by
  have hle := Single.le_iff.1 (h.le_of_getElem? (Nat.le_of_lt hij) ha hb)
  obtain ⟨hi, rfl⟩ := List.getElem?_eq_some_iff.1 ha
  obtain ⟨hj, rfl⟩ := List.getElem?_eq_some_iff.1 hb
  have hne := List.pairwise_iff_getElem.1 hd i j hi hj hij
  refine Single.lt_iff.2 ⟨hle.1, hle.2.1, lt_of_le_of_ne hle.2.2 fun hkey => hne ?_⟩
  simp [Single.sameValue, hle.1, hle.2.1, hkey]

/-- At the first and at the last point, the colour is that point's own. -/
theorem evaluate_end (h : t.Ordered) (hd : Distinct t.points) (hsmooth : t.discrete ≤ 1)
    (ha : t.points[i]? = some a) (hend : i = 0 ∨ t.points[i + 1]? = none) :
    t.evaluate a.value = .ok a.colour := by
  have hself := Single.le_refl (h.isNaN (List.mem_of_getElem? ha))
  rcases Nat.eq_zero_or_pos i with rfl | hpos
  · rw [← List.head?_eq_getElem?] at ha
    exact evaluate_below hsmooth ha hself
  · have hfirst := List.head?_eq_some_head (List.ne_nil_of_mem (List.mem_of_getElem? ha))
    have hlast : t.points.getLast? = some a := by
      obtain ⟨hlt, -⟩ := List.getElem?_eq_some_iff.1 ha
      have hlength := List.getElem?_eq_none_iff.1 (hend.resolve_left (Nat.ne_of_gt hpos))
      rw [List.getLast?_eq_getElem?, show t.points.length - 1 = i by omega, ha]
    exact evaluate_above hsmooth hfirst hlast
      (h.lt_of_lt hd hpos (List.head?_eq_getElem? ▸ hfirst) ha) hself

/-- At a point with neighbours on both sides, the colour is the lower end of a mixture. -/
theorem evaluate_inner (h : t.Ordered) (hd : Distinct t.points) (hsmooth : t.discrete ≤ 1)
    (hpos : 0 < i) (ha : t.points[i]? = some a) (hb : t.points[i + 1]? = some b) :
    t.evaluate a.value = .ok (between a b a.value) := by
  have hmem := List.mem_of_getElem? ha
  have hfirst := List.head?_eq_some_head (List.ne_nil_of_mem hmem)
  exact evaluate_segment h hsmooth hfirst ha hb
    (h.lt_of_lt hd hpos (List.head?_eq_getElem? ▸ hfirst) ha) (Single.le_refl (h.isNaN hmem))
    (h.lt_of_lt hd (Nat.lt_succ_self i) ha hb)

/-- A function that was checked when it was made, without two points of one value, has at every point
that point's own colour, unless the point is not the first one and the next one is too near: then it has
the colour of the next one. -/
theorem evaluate_controlPoint (h : ofPoints points = .ok t) (hd : Distinct points)
    (hc : ∀ p ∈ points, p.colour.IsFinite) {bands : UInt32} (hbands : bands ≤ 1)
    {p : ControlPoint} (hp : t.points[i]? = some p) :
    ∃ c, (t.withDiscrete bands).evaluate p.value = .ok c ∧
      ((∀ next, ¬ t.Crowds i next) → c.sameValue p.colour) ∧
      ∀ next, t.Crowds i next → c = next.colour := by
  obtain ⟨hchecked, hperm⟩ := ordered_of_ofPoints h
  have hordered := hchecked.withDiscrete bands
  have hdistinct : Distinct t.points := (hperm.pairwise_iff fun hne hsame => hne
    (by rwa [Single.sameValue_comm])).2 hd
  have hcolour : ∀ {j} {q : ControlPoint}, t.points[j]? = some q → q.colour.IsFinite := fun hq =>
    hc _ (hperm.mem_iff.1 (List.mem_of_getElem? hq))
  have hself := (hcolour hp).exact.sameValue (hcolour hp).exact
  by_cases hend : i = 0 ∨ t.points[i + 1]? = none
  · refine ⟨p.colour, evaluate_end hordered hdistinct hbands hp hend, fun _ => hself, ?_⟩
    rintro next ⟨hpos, hnext, -⟩
    rw [hend.resolve_left (Nat.ne_of_gt hpos)] at hnext
    cases hnext
  · rw [not_or] at hend
    obtain ⟨next, hnext⟩ := Option.ne_none_iff_exists'.1 hend.2
    have hpos := Nat.pos_of_ne_zero hend.1
    have hunit := hchecked.unit _ (List.mem_of_getElem? hp)
    have hunit' := hchecked.unit _ (List.mem_of_getElem? hnext)
    refine ⟨_, evaluate_inner hordered hdistinct hbands hpos hp hnext, fun halone => ?_, ?_⟩
    · have hfar : ¬ next.value - p.value ≤ Single.epsilon := fun hnear =>
        halone next ⟨hpos, hnext, p, hp, hnear⟩
      have hspan := (Single.sub_rounded (fraction_of_isUnitValue hunit').isFinite
        (fraction_of_isUnitValue hunit).isFinite).isNaN
      have hwide := (Single.not_le_iff hspan (by decide)).1 hfar
      exact (between_lower hunit hunit' (hcolour hp) (hcolour hnext) hwide).sameValue
        (hcolour hp).exact
    · rintro q ⟨-, hq, lower, hlower, hnear⟩
      rw [hnext] at hq
      rw [hp] at hlower
      cases hq
      cases hlower
      exact if_pos hnear

/-- A point between two others, given out of order and with a negative zero in its colour. -/
theorem evaluate_controlPoint_middle :
    let points : List ControlPoint :=
      [⟨1, Vec4.one⟩, ⟨⟨0x3f000000⟩, ⟨⟨0x80000000⟩, 0, 1, 1⟩⟩, ⟨0, Vec4.zero⟩]
    Distinct points ∧ ∃ t c, ofPoints points = .ok t ∧
      (t.withDiscrete 1).evaluate ⟨0x3f000000⟩ = .ok c ∧
      c.sameValue ⟨⟨0x80000000⟩, 0, 1, 1⟩ := by
  intro points
  have hmade : ofPoints points =
      .ok ⟨[⟨0, Vec4.zero⟩, ⟨⟨0x3f000000⟩, ⟨⟨0x80000000⟩, 0, 1, 1⟩⟩, ⟨1, Vec4.one⟩], 0⟩ := by
    cbv
  have hdistinct : Distinct points := by decide
  have hbands : (1 : UInt32) ≤ 1 := by decide
  obtain ⟨c, hevaluate, halone, -⟩ :=
    evaluate_controlPoint hmade hdistinct (by decide) hbands (i := 1) rfl
  refine ⟨hdistinct, _, c, hmade, hevaluate, halone fun next hcrowds => ?_⟩
  obtain ⟨-, hnext, lower, hlower, hnear⟩ := hcrowds
  cases hnext
  cases hlower
  exact absurd hnear (by decide)

/-- Of two neighbouring scalars that are both points, the lower one has the colour of the upper one. -/
theorem evaluate_controlPoint_crowded :
    let points : List ControlPoint :=
      [⟨0, Vec4.zero⟩, ⟨⟨0x3f000000⟩, ⟨1, 0, 0, 1⟩⟩, ⟨⟨0x3f000001⟩, ⟨0, 1, 0, 1⟩⟩]
    ∃ t, ofPoints points = .ok t ∧ t.points = points ∧ t.discrete = 0 ∧ Distinct points ∧
      (∀ p ∈ points, p.colour.IsFinite) ∧
      t.evaluate ⟨0x3f000000⟩ = .ok ⟨0, 1, 0, 1⟩ ∧
      ¬ Vec4.sameValue ⟨0, 1, 0, 1⟩ ⟨1, 0, 0, 1⟩ :=
  ⟨⟨_, 0⟩, by cbv, rfl, rfl, by decide, by decide, by decide +kernel, by decide⟩

end TransferFunction
end SortLast
