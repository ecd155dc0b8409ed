import Mathlib.Tactic
import SortLast.Scalar.Rounding

/-!
# Rounding to the nearest value

Every operation computes an exact fraction and rounds it once. What comes out is as near to the exact
result as any value of the format, or an infinity, and that from a fixed limit on.

* `Format.Represents`: the values of a format, without a largest exponent.
* `Format.Nearest`: nearest to an exact value; `Nearest.eq`, `Nearest.le`, `Nearest.mono` are what
  nearness alone says.
* `Format.Rounded`: what a rounded operation gives for an exact result.
* `Format.round_rounded`, `Format.add_rounded`, `Format.sub_rounded`, `Format.mul_rounded`,
  `Format.div_rounded`: the operations.
* `Datum.ceil_finite`: the least integer at least a value.
-/

namespace SortLast

namespace Format

/-! ### Fractions -/

theorem cast_signed (s : Bool) (m : Nat) : ((signed s m : Int) : Rat) = if s then -(m : Rat) else m := by
  cases s <;> simp [signed]

/-- A fraction times a power of two is a fraction again. -/
theorem scaled_div (n d : Nat) (e : Int) :
    ((scaled n d e).1 : Rat) / (scaled n d e).2 = n / d * 2 ^ e := by
  simp only [scaled, Nat.shiftLeft_eq, Nat.cast_mul, Nat.cast_pow, Nat.cast_ofNat]
  rcases le_total 0 e with he | he
  · obtain ⟨k, rfl⟩ := Int.eq_ofNat_of_zero_le he
    have h1 : (k : Int).toNat = k := by omega
    have h2 : (-(k : Int)).toNat = 0 := by omega
    rw [h1, h2, zpow_natCast]
    ring
  · obtain ⟨k, hk⟩ := Int.eq_ofNat_of_zero_le (Int.neg_nonneg_of_nonpos he)
    obtain rfl : e = -(k : Int) := by omega
    have h1 : (-(k : Int)).toNat = 0 := by omega
    have h2 : (- -(k : Int)).toNat = k := by omega
    rw [h1, h2, zpow_neg, zpow_natCast, pow_zero, mul_one, div_mul_eq_div_div, div_eq_mul_inv]

theorem scaled_snd_pos {d : Nat} (hd : 0 < d) (n : Nat) (e : Int) : 0 < (scaled n d e).2 := by
  show 0 < d <<< (-e).toNat
  rw [Nat.shiftLeft_eq]
  exact Nat.mul_pos hd (Nat.two_pow_pos _)

/-- A fraction is compared with a power of two by shifting. -/
theorem shifted_le_iff {d : Nat} (hd : 0 < d) (n : Nat) (k : Int) :
    d <<< k.toNat ≤ n <<< (-k).toNat ↔ (2 : Rat) ^ k ≤ n / d := by
  have hpos : (0 : Rat) < (scaled n d (-k)).2 := Nat.cast_pos.2 (scaled_snd_pos hd n (-k))
  have hscaled := scaled_div n d (-k)
  rw [div_eq_iff hpos.ne'] at hscaled
  have hpow : (2 : Rat) ^ (-k) * 2 ^ k = 1 := by rw [← zpow_add₀ two_ne_zero, neg_add_cancel, zpow_zero]
  have hle : d <<< k.toNat ≤ n <<< (-k).toNat ↔ (scaled n d (-k)).2 ≤ (scaled n d (-k)).1 := by
    rw [scaled, neg_neg]
  rw [hle, ← Nat.cast_le (α := Rat), hscaled, le_mul_iff_one_le_left hpos, ← hpow]
  rw [mul_comm, mul_le_mul_iff_of_pos_right (by positivity)]

/-- Rounding to an integer is off by a half at most, and by a half only if the integer is even. -/
theorem nearestEven_bounds {d : Nat} (hd : 0 < d) (n : Nat) :
    2 * (nearestEven n d * d) ≤ 2 * n + d ∧ 2 * n ≤ 2 * (nearestEven n d * d) + d ∧
      (2 * n = 2 * (nearestEven n d * d) + d → nearestEven n d % 2 = 0) := by
  have hn := Nat.div_add_mod n d
  have hr := Nat.mod_lt n hd
  have hdown : n / d * d = d * (n / d) := Nat.mul_comm _ _
  have hup : (n / d + 1) * d = d * (n / d) + d := by ring
  unfold nearestEven
  simp only
  split
  · omega
  · split
    · omega
    -- a tie goes to the even neighbour
    · rcases Nat.mod_two_eq_zero_or_one (n / d) with hq | hq
      · rw [hq, Nat.add_zero]
        omega
      · rw [hq]
        omega

theorem abs_nearestEven_sub {d : Nat} (hd : 0 < d) (n : Nat) :
    |(nearestEven n d : Rat) - n / d| ≤ 1 / 2 := by
  have hd' : (0 : Rat) < d := Nat.cast_pos.2 hd
  obtain ⟨hle, hge, -⟩ := nearestEven_bounds hd n
  have hle' : 2 * ((nearestEven n d : Rat) * d) ≤ 2 * n + d := by exact_mod_cast hle
  have hge' : 2 * (n : Rat) ≤ 2 * ((nearestEven n d : Rat) * d) + d := by exact_mod_cast hge
  have hsub : (nearestEven n d : Rat) - n / d = (nearestEven n d * d - n) / d := by field_simp
  rw [hsub, abs_div, abs_of_pos hd', div_le_iff₀ hd', abs_le]
  constructor <;> linarith

/-- A tie goes to the even neighbour. -/
theorem nearestEven_of_tie {d : Nat} (hd : 0 < d) {n : Nat}
    (h : (n : Rat) / d = nearestEven n d + 1 / 2) : nearestEven n d % 2 = 0 := by
  have hd' : (d : Rat) ≠ 0 := Nat.cast_ne_zero.2 hd.ne'
  refine (nearestEven_bounds hd n).2.2 ?_
  have htie : 2 * (n : Rat) = 2 * ((nearestEven n d : Rat) * d) + d := by
    rw [div_eq_iff hd'] at h
    rw [h]
    ring
  exact_mod_cast htie

/-- The logarithm of a fraction to base two, rounded down. -/
theorem log2Quotient_spec {n d : Nat} (hn : 0 < n) (hd : 0 < d) :
    (2 : Rat) ^ log2Quotient n d ≤ n / d ∧ (n : Rat) / d < 2 ^ (log2Quotient n d + 1) := by
  have hn' : (0 : Rat) < n := Nat.cast_pos.2 hn
  have hd' : (0 : Rat) < d := Nat.cast_pos.2 hd
  have htwo : (2 : Rat) ≠ 0 := two_ne_zero
  have hnlow : (2 : Rat) ^ (n.log2 : Int) ≤ n := by
    rw [zpow_natCast]
    exact_mod_cast Nat.log2_self_le hn.ne'
  have hnhigh : (n : Rat) < 2 ^ ((n.log2 : Int) + 1) := by
    rw [← Nat.cast_succ, zpow_natCast]
    exact_mod_cast Nat.lt_log2_self
  have hdlow : (2 : Rat) ^ (d.log2 : Int) ≤ d := by
    rw [zpow_natCast]
    exact_mod_cast Nat.log2_self_le hd.ne'
  have hdhigh : (d : Rat) < 2 ^ ((d.log2 : Int) + 1) := by
    rw [← Nat.cast_succ, zpow_natCast]
    exact_mod_cast Nat.lt_log2_self
  have hupper : (n : Rat) / d < 2 ^ ((n.log2 : Int) - d.log2 + 1) := by
    rw [div_lt_iff₀ hd']
    calc (n : Rat) < 2 ^ ((n.log2 : Int) - d.log2 + 1 + d.log2) := by
          rwa [show (n.log2 : Int) - d.log2 + 1 + d.log2 = n.log2 + 1 by ring]
      _ = 2 ^ ((n.log2 : Int) - d.log2 + 1) * 2 ^ (d.log2 : Int) := zpow_add₀ htwo _ _
      _ ≤ 2 ^ ((n.log2 : Int) - d.log2 + 1) * d := by gcongr
  have hlower : (2 : Rat) ^ ((n.log2 : Int) - d.log2 - 1) ≤ n / d := by
    rw [le_div_iff₀ hd']
    calc (2 : Rat) ^ ((n.log2 : Int) - d.log2 - 1) * d
        ≤ 2 ^ ((n.log2 : Int) - d.log2 - 1) * 2 ^ ((d.log2 : Int) + 1) := by gcongr
      _ = 2 ^ (n.log2 : Int) := by
        rw [← zpow_add₀ htwo]
        ring_nf
      _ ≤ n := hnlow
  have hcompare := shifted_le_iff hd n ((n.log2 : Int) - d.log2)
  unfold log2Quotient
  simp only
  split
  · rename_i h
    exact ⟨hcompare.1 h, hupper⟩
  · rename_i h
    rw [hcompare, not_le] at h
    exact ⟨hlower, by rwa [sub_add_cancel]⟩

/-! ### Values of a format -/

/-- A whole multiple of a power of two that fits into the significand. Large values count, too. -/
def Represents (f : Format) (y : Rat) : Prop :=
  ∃ k e : Int, f.minExponent ≤ e ∧ |k| < 2 ^ f.precision ∧ y = k * 2 ^ e

/-- `v` is as near to `q` as any value of the format, and is off by half a unit of the last place at
most. -/
structure Nearest (f : Format) (q v : Rat) : Prop where
  least : ∀ y, f.Represents y → |v - q| ≤ |y - q|
  error : |v - q| ≤ |q| / 2 ^ f.precision + 2 ^ (f.minExponent - 1)

/-- Where the infinities begin, half a unit above the largest value. -/
def limit (f : Format) : Rat := (2 ^ f.precision - 1 / 2) * 2 ^ f.maxExponent

/-- A significand and an exponent as the format has them; the significand may be the next power of
two, which is carried into the exponent, unless that is the largest. -/
structure Fits (f : Format) (m : Nat) (e : Int) : Prop where
  low : f.minExponent ≤ e
  high : e ≤ f.maxExponent
  significand : m ≤ 2 ^ f.precision
  finite : e = f.maxExponent → m < 2 ^ f.precision
  normal : e = f.minExponent ∨ 2 ^ (f.precision - 1) ≤ m

/-- What a rounded operation gives for the exact result `q`. -/
inductive Rounded (f : Format) (q : Rat) : Datum → Prop
  | finite {s : Bool} {m : Nat} {e : Int} : f.Fits m e → f.Nearest q (Datum.finite s m e).toRat →
      |q| < f.limit → Rounded f q (.finite s m e)
  | infinite {s : Bool} : f.limit ≤ (if s then -q else q) → Rounded f q (.infinite s)

theorem toRat_finite (s : Bool) (m : Nat) (e : Int) :
    (Datum.finite s m e).toRat = signed s m * 2 ^ e := by
  have hscaled := scaled_div m 1 e
  rw [Nat.cast_one, div_one] at hscaled
  simp only [Datum.toRat, Rat.mkRat_eq_div, cast_signed]
  cases s
  · simpa using hscaled
  · simpa [neg_div] using hscaled

theorem abs_toRat_finite (s : Bool) (m : Nat) (e : Int) :
    |(Datum.finite s m e).toRat| = m * 2 ^ e := by
  have hpos : (0 : Rat) < 2 ^ e := by positivity
  rw [toRat_finite, abs_mul, abs_of_pos hpos, cast_signed]
  cases s <;> simp

theorem toRat_finite_eq_zero_iff {s : Bool} {m : Nat} {e : Int} :
    (Datum.finite s m e).toRat = 0 ↔ m = 0 := by
  rw [toRat_finite, mul_eq_zero, or_iff_left (by positivity)]
  cases s <;> simp [signed]

variable {f : Format} {q v y : Rat} {n d m : Nat} {e u : Int}

theorem Represents.neg (h : f.Represents y) : f.Represents (-y) := by
  obtain ⟨k, e, he, hk, rfl⟩ := h
  exact ⟨-k, e, he, by rwa [abs_neg], by push_cast; ring⟩

theorem Nearest.neg (h : f.Nearest q v) : f.Nearest (-q) (-v) where
  least y hy := by
    have hle := h.least (-y) hy.neg
    rwa [← abs_neg, show -(-v - -q) = v - q by ring, ← abs_neg (y - -q),
      show -(y - -q) = -y - q by ring]
  error := by
    rw [show -v - -q = -(v - q) by ring, abs_neg, abs_neg]
    exact h.error

/-- A value of the format is its own rounding. -/
theorem Nearest.eq (h : f.Nearest q v) (hq : f.Represents q) : v = q := by
  have hle := h.least q hq
  rw [sub_self, abs_zero] at hle
  exact sub_eq_zero.1 (abs_nonpos_iff.1 hle)

/-- Rounding does not pass a value of the format. -/
theorem Nearest.le (h : f.Nearest q v) (hy : f.Represents y) (hle : q ≤ y) : v ≤ y := by
  by_contra hlt
  rw [not_le] at hlt
  have hnear := h.least y hy
  rw [abs_of_pos (by linarith), abs_of_nonneg (by linarith)] at hnear
  linarith

theorem Nearest.ge (h : f.Nearest q v) (hy : f.Represents y) (hle : y ≤ q) : y ≤ v := by
  have hneg := h.neg.le hy.neg (neg_le_neg hle)
  exact neg_le_neg_iff.1 hneg

/-- Rounding keeps the order: the exact values lie on different sides of the middle between values
that are out of order. -/
theorem Nearest.mono {q' v' : Rat} (h : f.Nearest q v) (h' : f.Nearest q' v') (hv : f.Represents v)
    (hv' : f.Represents v') (hlt : q < q') : v ≤ v' := by
  by_contra hout
  rw [not_le] at hout
  have hleft := sq_le_sq.2 (h.least v' hv')
  have hright := sq_le_sq.2 (h'.least v hv)
  nlinarith

/-- Among the multiples of the unit, none is nearer than one that is off by half a unit at most. -/
theorem abs_sub_le_of_multiple (hm : |(m : Rat) * 2 ^ u - q| ≤ 2 ^ u / 2) (k : Int) :
    |(m : Rat) * 2 ^ u - q| ≤ |k * 2 ^ u - q| := by
  have hpos : (0 : Rat) < 2 ^ u := by positivity
  by_contra hlt
  rw [not_le] at hlt
  have hdiff : |((k - m : Int) : Rat)| * 2 ^ u < 1 * 2 ^ u := by
    rw [← abs_of_pos hpos, ← abs_mul, abs_of_pos hpos]
    calc |((k - m : Int) : Rat) * 2 ^ u| = |(k * 2 ^ u - q) - (m * 2 ^ u - q)| := by
          push_cast
          ring_nf
      _ ≤ |k * 2 ^ u - q| + |m * 2 ^ u - q| := abs_sub _ _
      _ < 2 ^ u / 2 + 2 ^ u / 2 := by linarith
      _ = 1 * 2 ^ u := by ring
  have hone : |((k - m : Int) : Rat)| < 1 := lt_of_mul_lt_mul_right hdiff hpos.le
  have hzero : |k - m| < 1 := by exact_mod_cast hone
  obtain rfl : k = m := by
    rw [abs_lt] at hzero
    omega
  rw [Int.cast_natCast] at hlt
  exact lt_irrefl _ hlt

/-- A multiple of the unit that is off by half a unit at most is nearest, if the unit is the one of the
values around. -/
theorem nearest_of_half_unit (hp : 0 < f.precision) (hu : f.minExponent ≤ u)
    (hq : u = f.minExponent ∨ 2 ^ (u + (f.precision - 1)) ≤ q) (hq0 : 0 ≤ q)
    (hm : |(m : Rat) * 2 ^ u - q| ≤ 2 ^ u / 2) : f.Nearest q (m * 2 ^ u) where
  least y hy := by
    obtain ⟨k, e, he, hk, rfl⟩ := hy
    rcases le_or_gt u e with hle | hlt
    -- on the same grid
    · obtain ⟨j, rfl⟩ := Int.le.dest hle
      have hcast : (k : Rat) * 2 ^ (u + j : Int) = ((k * 2 ^ j : Int) : Rat) * 2 ^ u := by
        rw [zpow_add₀ two_ne_zero, zpow_natCast]
        push_cast
        ring
      rw [hcast]
      exact abs_sub_le_of_multiple hm _
    -- on a finer grid, so below the power of two where the grid of `q` begins
    · have hbinade := hq.resolve_left (by omega)
      have hgrid : (2 : Rat) ^ (u + (f.precision - 1) : Int) = ((2 ^ (f.precision - 1) : Int) : Rat) * 2 ^ u := by
        push_cast
        rw [← zpow_natCast, ← zpow_add₀ two_ne_zero]
        congr 1
        omega
      have hbelow : (k : Rat) * 2 ^ e ≤ 2 ^ (u + (f.precision - 1) : Int) := by
        have hk' : (k : Rat) ≤ 2 ^ (f.precision : Int) := by
          rw [zpow_natCast]
          exact_mod_cast (le_abs_self k).trans hk.le
        calc (k : Rat) * 2 ^ e ≤ 2 ^ (f.precision : Int) * 2 ^ (u - 1) := by
              gcongr
              · norm_num
              · omega
          _ = 2 ^ (u + (f.precision - 1) : Int) := by
              rw [← zpow_add₀ two_ne_zero]
              congr 1
              omega
      calc |(m : Rat) * 2 ^ u - q| ≤ |((2 ^ (f.precision - 1) : Int) : Rat) * 2 ^ u - q| :=
            abs_sub_le_of_multiple hm _
        _ = q - 2 ^ (u + (f.precision - 1) : Int) := by
            rw [← hgrid, abs_sub_comm, abs_of_nonneg (sub_nonneg.2 hbinade)]
        _ ≤ q - k * 2 ^ e := by linarith
        _ ≤ |k * 2 ^ e - q| := by
            rw [abs_sub_comm]
            exact le_abs_self _
  error := by
    have hhalf : (2 : Rat) ^ u / 2 = 2 ^ (u - 1) := by rw [zpow_sub_one₀ two_ne_zero]; rfl
    rw [abs_of_nonneg hq0]
    rw [hhalf] at hm
    have hpos : (0 : Rat) < 2 ^ (f.minExponent - 1) := by positivity
    rcases hq with rfl | hq
    · have : 0 ≤ q / 2 ^ f.precision := by positivity
      linarith
    · have hunit : (2 : Rat) ^ (u - 1) ≤ q / 2 ^ f.precision := by
        rw [le_div_iff₀ (by positivity), ← zpow_natCast, ← zpow_add₀ two_ne_zero]
        rwa [show u - 1 + (f.precision : Int) = u + (f.precision - 1) by ring]
      linarith

/-! ### Rounding -/

/-- The unit around a fraction: the fraction lies in the range of a full significand, unless it is too
small for that. -/
theorem ulpExponent_spec (f : Format) (hn : 0 < n) (hd : 0 < d) (e : Int) :
    f.minExponent ≤ f.ulpExponent n d e ∧
      (f.ulpExponent n d e = f.minExponent ∨
        2 ^ (f.ulpExponent n d e + (f.precision - 1)) ≤ (n / d * 2 ^ e : Rat)) ∧
      (n / d * 2 ^ e : Rat) < 2 ^ (f.ulpExponent n d e + f.precision) := by
  obtain ⟨hlow, hhigh⟩ := log2Quotient_spec hn hd
  have hpos : (0 : Rat) < 2 ^ e := by positivity
  refine ⟨le_max_left _ _, ?_, ?_⟩
  · rcases le_total f.minExponent (log2Quotient n d + e - (f.precision - 1)) with hle | hle
    · right
      rw [ulpExponent, max_eq_right hle, sub_add_cancel, zpow_add₀ two_ne_zero]
      gcongr
    · left
      rw [ulpExponent, max_eq_left hle]
  · calc (n / d * 2 ^ e : Rat) < 2 ^ (log2Quotient n d + 1) * 2 ^ e := by gcongr
      _ = 2 ^ (log2Quotient n d + 1 + e) := (zpow_add₀ two_ne_zero _ _).symm
      _ ≤ 2 ^ (f.ulpExponent n d e + f.precision) := by
        refine zpow_le_zpow_right₀ one_le_two ?_
        have := le_max_right f.minExponent (log2Quotient n d + e - (f.precision - 1))
        unfold ulpExponent
        omega

/-- The rounded significand is off by half a unit at most. -/
theorem abs_significand_sub (hd : 0 < d) (n : Nat) (e u : Int) :
    |(nearestEven (scaled n d (e - u)).1 (scaled n d (e - u)).2 : Rat) * 2 ^ u - n / d * 2 ^ e| ≤
      2 ^ u / 2 := by
  have hpos : (0 : Rat) < 2 ^ u := by positivity
  have hnear := abs_nearestEven_sub (scaled_snd_pos hd n (e - u)) (scaled n d (e - u)).1
  rw [scaled_div] at hnear
  have hq : (n / d * 2 ^ e : Rat) = n / d * 2 ^ (e - u) * 2 ^ u := by
    rw [mul_assoc, ← zpow_add₀ two_ne_zero, sub_add_cancel]
  rw [hq, ← sub_mul, abs_mul, abs_of_pos hpos]
  calc _ ≤ 1 / 2 * (2 : Rat) ^ u := by gcongr
    _ = 2 ^ u / 2 := by ring

/-- A tie of significands goes to the even one. -/
theorem significand_of_tie (hd : 0 < d)
    (h : (n / d * 2 ^ e : Rat) =
      ((nearestEven (scaled n d (e - u)).1 (scaled n d (e - u)).2 : Rat) + 1 / 2) * 2 ^ u) :
    nearestEven (scaled n d (e - u)).1 (scaled n d (e - u)).2 % 2 = 0 := by
  refine nearestEven_of_tie (scaled_snd_pos hd n (e - u)) ?_
  have hpos : (2 : Rat) ^ u ≠ 0 := by positivity
  rw [scaled_div]
  refine mul_right_cancel₀ hpos ?_
  rw [← h, mul_assoc, ← zpow_add₀ two_ne_zero, sub_add_cancel]

/-- A value from the limit on: its unit is too large, or its significand is. -/
theorem limit_le (hf : f.minExponent ≤ f.maxExponent)
    (hq : u = f.minExponent ∨ 2 ^ (u + (f.precision - 1)) ≤ q)
    (hm : |(m : Rat) * 2 ^ u - q| ≤ 2 ^ u / 2)
    (h : f.maxExponent < u ∨ (u = f.maxExponent ∧ Nat.pow 2 f.precision ≤ m)) : f.limit ≤ q := by
  rcases h with hlt | ⟨rfl, hcarry⟩
  · have hbinade := hq.resolve_left (by omega)
    calc f.limit ≤ 2 ^ f.precision * 2 ^ f.maxExponent := by
          unfold limit
          gcongr
          linarith
      _ = 2 ^ (f.maxExponent + f.precision) := by
          rw [← zpow_natCast, ← zpow_add₀ two_ne_zero, add_comm]
      _ ≤ 2 ^ (u + (f.precision - 1)) := zpow_le_zpow_right₀ one_le_two (by omega)
      _ ≤ q := hbinade
  · have hcarry' : (2 : Rat) ^ f.precision * 2 ^ f.maxExponent ≤ m * 2 ^ f.maxExponent := by
      gcongr
      exact_mod_cast hcarry
    rw [abs_le] at hm
    unfold limit
    linarith

/-- Below the limit otherwise: half a unit above the largest value is a tie, which goes up. -/
theorem lt_limit (hp : 0 < f.precision) (hhigh : q < 2 ^ (u + f.precision))
    (hm : |(m : Rat) * 2 ^ u - q| ≤ 2 ^ u / 2) (htie : q = (m + 1 / 2) * 2 ^ u → m % 2 = 0)
    (h : ¬ (f.maxExponent < u ∨ (u = f.maxExponent ∧ Nat.pow 2 f.precision ≤ m))) : q < f.limit := by
  have hone : (1 : Rat) ≤ 2 ^ (f.precision - 1) := one_le_pow₀ one_le_two
  have hdouble : (2 : Rat) ^ f.precision = 2 ^ (f.precision - 1) + 2 ^ (f.precision - 1) := by
    obtain ⟨k, hk⟩ := Nat.exists_eq_succ_of_ne_zero hp.ne'
    rw [hk, Nat.succ_sub_one, pow_succ]
    ring
  have hpos : (0 : Rat) < 2 ^ f.maxExponent := by positivity
  rcases lt_or_eq_of_le (show u ≤ f.maxExponent by omega) with hlt | rfl
  · calc q < 2 ^ (u + f.precision) := hhigh
      _ ≤ 2 ^ (f.maxExponent + ((f.precision - 1 : Nat) : Int)) :=
          zpow_le_zpow_right₀ one_le_two (by omega)
      _ = 2 ^ (f.precision - 1) * 2 ^ f.maxExponent := by
          rw [zpow_add₀ two_ne_zero, zpow_natCast, mul_comm]
      _ ≤ f.limit := by
          unfold limit
          gcongr
          linarith
  · have hfull : m + 1 ≤ 2 ^ f.precision := Nat.lt_of_not_le fun hcarry => h (.inr ⟨rfl, hcarry⟩)
    have hfull' : (m : Rat) + 1 ≤ 2 ^ f.precision := by exact_mod_cast hfull
    rw [abs_le] at hm
    have hq : q ≤ (m + 1 / 2) * 2 ^ f.maxExponent := by linarith
    have hlimit : ((m : Rat) + 1 / 2) * 2 ^ f.maxExponent ≤ f.limit := by
      unfold limit
      gcongr
      linarith
    refine lt_of_le_of_ne (hq.trans hlimit) fun heq => ?_
    have heven := htie (hq.antisymm (heq ▸ hlimit))
    have hlast : (m : Rat) + 1 = 2 ^ f.precision := by
      have hle : f.limit ≤ (m + 1 / 2) * 2 ^ f.maxExponent := heq ▸ hq
      have := le_of_mul_le_mul_right hle hpos
      linarith
    have hlast' : m + 1 = 2 ^ f.precision := by exact_mod_cast hlast
    obtain ⟨k, hk⟩ := Nat.exists_eq_succ_of_ne_zero hp.ne'
    rw [hk, pow_succ] at hlast'
    omega

/-- Otherwise the significand fits. -/
theorem fits_of_half_unit (hp : 0 < f.precision) (hu : f.minExponent ≤ u)
    (hq : u = f.minExponent ∨ 2 ^ (u + (f.precision - 1)) ≤ q) (hhigh : q < 2 ^ (u + f.precision))
    (hm : |(m : Rat) * 2 ^ u - q| ≤ 2 ^ u / 2)
    (h : ¬ (f.maxExponent < u ∨ (u = f.maxExponent ∧ Nat.pow 2 f.precision ≤ m))) : f.Fits m u := by
  have hpos : (0 : Rat) < 2 ^ u := by positivity
  rw [abs_le] at hm
  refine ⟨hu, by omega, ?_, fun hmax => ?_, hq.imp_right fun hbinade => ?_⟩
  · rw [zpow_add₀ two_ne_zero, zpow_natCast, mul_comm] at hhigh
    have hlt : (m : Rat) * 2 ^ u < (2 ^ f.precision + 1) * 2 ^ u := by linarith
    have hlt' : (m : Rat) < 2 ^ f.precision + 1 := lt_of_mul_lt_mul_right hlt hpos.le
    exact Nat.lt_succ_iff.1 (by exact_mod_cast hlt')
  · exact Nat.lt_of_not_le fun hcarry => h (.inr ⟨hmax, hcarry⟩)
  · rw [zpow_add₀ two_ne_zero, show (f.precision : Int) - 1 = (f.precision - 1 : Nat) by omega,
      zpow_natCast, mul_comm] at hbinade
    have hlt : (2 : Rat) ^ (f.precision - 1) * 2 ^ u < (m + 1) * 2 ^ u := by linarith
    have hlt' : (2 : Rat) ^ (f.precision - 1) < m + 1 := lt_of_mul_lt_mul_right hlt hpos.le
    exact Nat.lt_succ_iff.1 (by exact_mod_cast hlt')

theorem limit_pos (f : Format) : 0 < f.limit := by
  have hone : (1 : Rat) ≤ 2 ^ f.precision := one_le_pow₀ one_le_two
  have hpos : (0 : Rat) < 2 ^ f.precision - 1 / 2 := by linarith
  unfold limit
  positivity

/-- Zero is a value of every format. -/
theorem rounded_zero (hf : f.minExponent ≤ f.maxExponent) (s : Bool) :
    f.Rounded 0 (.finite s 0 f.minExponent) := by
  have hpos : (0 : Rat) < 2 ^ (f.minExponent - 1) := by positivity
  have hvalue : (Datum.finite s 0 f.minExponent).toRat = 0 := by
    rw [toRat_finite]
    cases s <;> simp [signed]
  refine .finite ⟨le_rfl, hf, Nat.zero_le _, fun _ => Nat.two_pow_pos _, .inl rfl⟩ ?_ ?_
  · rw [hvalue]
    exact ⟨fun y _ => by rw [sub_zero, abs_zero]; exact abs_nonneg _, by simpa using hpos.le⟩
  · rw [abs_zero]
    exact f.limit_pos

/-- Rounding gives the nearest value, or an infinity from the limit on. -/
theorem round_rounded (hp : 0 < f.precision) (hf : f.minExponent ≤ f.maxExponent) (s : Bool)
    (hd : 0 < d) (n : Nat) (e : Int) :
    f.Rounded (signed s n / d * 2 ^ e) (f.round s n d e) := by
  rcases Nat.eq_zero_or_pos n with rfl | hn
  · have hzero : ((signed s 0 : Int) : Rat) / d * 2 ^ e = 0 := by cases s <;> simp [signed]
    rw [hzero, round, if_pos rfl]
    exact rounded_zero hf s
  · obtain ⟨hu, hlow, hhigh⟩ := ulpExponent_spec f hn hd e
    have hunit := abs_significand_sub hd n e (f.ulpExponent n d e)
    have htie := significand_of_tie hd (n := n) (e := e) (u := f.ulpExponent n d e)
    have hq0 : (0 : Rat) ≤ n / d * 2 ^ e := by positivity
    have hsign : ((signed s n : Int) : Rat) / d * 2 ^ e =
        if s then -((n : Rat) / d * 2 ^ e) else (n : Rat) / d * 2 ^ e := by
      cases s <;> simp [signed, neg_div]
    rw [hsign, round, if_neg hn.ne']
    simp only
    generalize f.ulpExponent n d e = u at *
    generalize nearestEven (scaled n d (e - u)).1 (scaled n d (e - u)).2 = m at *
    generalize (n / d * 2 ^ e : Rat) = q at *
    by_cases hlarge : f.maxExponent < u ∨ (u = f.maxExponent ∧ Nat.pow 2 f.precision ≤ m)
    · rw [if_pos hlarge]
      have hlimit := limit_le hf hlow hunit hlarge
      refine .infinite ?_
      cases s
      · exact hlimit
      · simpa using hlimit
    · rw [if_neg hlarge]
      have hfits := fits_of_half_unit hp hu hlow hhigh hunit hlarge
      have hnear := nearest_of_half_unit hp hu hlow hq0 hunit
      have hlimit := lt_limit hp hhigh hunit htie hlarge
      rw [← abs_of_nonneg hq0] at hlimit
      cases s
      · exact .finite hfits (by simpa [toRat_finite, signed] using hnear) (by simpa using hlimit)
      · exact .finite hfits (by simpa [toRat_finite, signed] using hnear.neg) (by simpa using hlimit)

/-! ### Operations -/

theorem signed_natAbs (z : Int) : signed (decide (z < 0)) z.natAbs = z := by
  unfold signed
  split
  · rename_i h
    have := of_decide_eq_true h
    omega
  · rename_i h
    have := of_decide_eq_false (Bool.eq_false_iff.2 h)
    omega

theorem cast_signed_mul (s t : Bool) (m n : Nat) :
    ((signed (s != t) (m * n) : Int) : Rat) = signed s m * signed t n := by
  cases s <;> cases t <;> simp [signed]

theorem cast_signed_div (s t : Bool) (m n : Nat) :
    ((signed (s != t) m : Int) : Rat) / n = signed s m / signed t n := by
  cases s <;> cases t <;> simp [signed, neg_div, div_neg]

/-- Aligning a value to a smaller exponent. -/
theorem signed_shiftLeft (s : Bool) (m : Nat) {low : Int} (h : low ≤ e) :
    ((signed s (m <<< (e - low).toNat) : Int) : Rat) * 2 ^ low = signed s m * 2 ^ e := by
  obtain ⟨k, rfl⟩ := Int.le.dest h
  have hk : (low + k - low).toNat = k := by omega
  rw [hk, Nat.shiftLeft_eq, zpow_add₀ two_ne_zero, zpow_natCast, cast_signed, cast_signed]
  cases s
  · simp only [Bool.false_eq_true, if_false]
    push_cast
    ring
  · simp only [if_true]
    push_cast
    ring

theorem add_rounded (hp : 0 < f.precision) (hf : f.minExponent ≤ f.maxExponent) (s t : Bool)
    (m n : Nat) (e d : Int) :
    f.Rounded ((Datum.finite s m e).toRat + (Datum.finite t n d).toRat)
      (f.add (.finite s m e) (.finite t n d)) := by
  rw [toRat_finite, toRat_finite, ← signed_shiftLeft s m (min_le_left e d),
    ← signed_shiftLeft t n (min_le_right e d), ← add_mul, ← Int.cast_add]
  simp only [add]
  split
  · rename_i hzero
    rw [hzero, Int.cast_zero, zero_mul]
    exact rounded_zero hf _
  · have h := round_rounded hp hf (decide (signed s (m <<< (e - min e d).toNat) +
      signed t (n <<< (d - min e d).toNat) < 0)) Nat.one_pos (signed s (m <<< (e - min e d).toNat) +
      signed t (n <<< (d - min e d).toNat)).natAbs (min e d)
    rwa [signed_natAbs, Nat.cast_one, div_one] at h

theorem sub_rounded (hp : 0 < f.precision) (hf : f.minExponent ≤ f.maxExponent) (s t : Bool)
    (m n : Nat) (e d : Int) :
    f.Rounded ((Datum.finite s m e).toRat - (Datum.finite t n d).toRat)
      (f.sub (.finite s m e) (.finite t n d)) := by
  have h := add_rounded hp hf s (!t) m n e d
  have hneg : (Datum.finite (!t) n d).toRat = -(Datum.finite t n d).toRat := by
    rw [toRat_finite, toRat_finite]
    cases t <;> simp [signed]
  rwa [hneg, ← sub_eq_add_neg] at h

theorem mul_rounded (hp : 0 < f.precision) (hf : f.minExponent ≤ f.maxExponent) (s t : Bool)
    (m n : Nat) (e d : Int) :
    f.Rounded ((Datum.finite s m e).toRat * (Datum.finite t n d).toRat)
      (f.mul (.finite s m e) (.finite t n d)) := by
  have h := round_rounded hp hf (s != t) Nat.one_pos (m * n) (e + d)
  rw [cast_signed_mul, Nat.cast_one, div_one, zpow_add₀ two_ne_zero] at h
  rw [toRat_finite, toRat_finite, mul_mul_mul_comm]
  exact h

theorem div_rounded (hp : 0 < f.precision) (hf : f.minExponent ≤ f.maxExponent) (s t : Bool)
    (m : Nat) (hn : 0 < n) (e d : Int) :
    f.Rounded ((Datum.finite s m e).toRat / (Datum.finite t n d).toRat)
      (f.div (.finite s m e) (.finite t n d)) := by
  have h := round_rounded hp hf (s != t) hn m (e - d)
  rw [cast_signed_div, zpow_sub₀ two_ne_zero] at h
  rw [toRat_finite, toRat_finite, mul_div_mul_comm]
  simp only [div, if_neg hn.ne']
  exact h

end Format

namespace Datum

/-! ### Integers -/

theorem floor_finite (s : Bool) (m : Nat) (e : Int) :
    (finite s m e).floor = ⌊(finite s m e).toRat⌋ := by
  simp only [floor, toRat, Rat.mkRat_eq_div]
  rw [Rat.floor_intCast_div_natCast, Int.fdiv_eq_ediv_of_nonneg _ (Int.natCast_nonneg _)]

theorem toRat_neg_finite (s : Bool) (m : Nat) (e : Int) :
    (finite (!s) m e).toRat = -(finite s m e).toRat := by
  rw [Format.toRat_finite, Format.toRat_finite]
  cases s <;> simp [Format.signed]

theorem ceil_finite (s : Bool) (m : Nat) (e : Int) :
    (finite s m e).ceil = ⌈(finite s m e).toRat⌉ := by
  rw [ceil, neg, floor_finite, toRat_neg_finite, Int.floor_neg, neg_neg]

end Datum
end SortLast
