import SortLast.Proofs.Scalar.Arithmetic

/-!
# Results that are rounded to nothing

A difference of scalars is never rounded to zero, since every scalar is a multiple of the smallest one.
A product of scalars is, up to half of the smallest positive scalar, the half included: it is a tie, and
zero is even.

* `Format.nearestEven_eq_zero_iff`, `Format.round_eq_zero_iff`: what is rounded to zero.
* `Single.sub_pos_iff`: the sign of a difference is that of the comparison.
* `Single.Null`: no number, or zero. A product with such a factor is such a product.
* `Single.Vanishes`: the factors of a product that is too small.
* `Single.mul_pos_iff`: products of positive scalars are positive unless they vanish.
* `Single.sub_congr`: a difference does not depend on the signs of zeros.
-/

namespace SortLast

namespace Format

/-- Up to a half, zero is the nearest integer. -/
theorem nearestEven_eq_zero_iff {d : Nat} (hd : 0 < d) (n : Nat) :
    nearestEven n d = 0 ↔ 2 * n ≤ d := by
  constructor
  · intro h
    have hb := (nearestEven_bounds hd n).2.1
    rwa [h, Nat.zero_mul, Nat.mul_zero, Nat.zero_add] at hb
  · intro h
    have hq : n / d = 0 := Nat.div_eq_of_lt (by omega)
    have hr : n % d = n := Nat.mod_eq_of_lt (by omega)
    unfold nearestEven
    simp only [hq, hr]
    split
    · rfl
    · rw [if_neg (by omega)]

/-- Up to half a unit, no unit is the nearest number of them. -/
theorem nearestEven_scaled_eq_zero_iff (n : Nat) (e u : Int) :
    nearestEven (scaled n 1 (e - u)).1 (scaled n 1 (e - u)).2 = 0 ↔
      (n * 2 ^ e : Rat) ≤ 2 ^ (u - 1) := by
  have hd := scaled_snd_pos Nat.one_pos n (e - u)
  have hd' : (0 : Rat) < (scaled n 1 (e - u)).2 := Nat.cast_pos.2 hd
  have hunit : (0 : Rat) < 2 ^ u := by positivity
  have hscaled : (n * 2 ^ e : Rat) = (scaled n 1 (e - u)).1 / (scaled n 1 (e - u)).2 * 2 ^ u := by
    rw [scaled_div, Nat.cast_one, div_one, mul_assoc, ← zpow_add₀ two_ne_zero, sub_add_cancel]
  have hhalf : (2 ^ (u - 1) : Rat) = 1 / 2 * 2 ^ u := by
    rw [zpow_sub_one₀ two_ne_zero]
    ring
  rw [hscaled, hhalf, mul_le_mul_iff_left₀ hunit, div_le_div_iff₀ hd' two_pos,
    nearestEven_eq_zero_iff hd, one_mul, mul_comm]
  exact_mod_cast Iff.rfl

/-- Up to half of its smallest positive value, a format rounds to zero. -/
theorem round_eq_zero_iff {f : Format} (hp : 0 < f.precision) (hf : f.minExponent ≤ f.maxExponent)
    (s : Bool) (n : Nat) (e : Int) :
    (∃ t u, f.round s n 1 e = .finite t 0 u) ↔ (n * 2 ^ e : Rat) ≤ 2 ^ (f.minExponent - 1) := by
  rcases Nat.eq_zero_or_pos n with rfl | hn
  · rw [round, if_pos rfl, Nat.cast_zero, zero_mul]
    exact iff_of_true ⟨_, _, rfl⟩ (by positivity)
  · obtain ⟨hu, hlow, -⟩ := ulpExponent_spec f hn Nat.one_pos e
    rw [Nat.cast_one, div_one] at hlow
    have hzero := nearestEven_scaled_eq_zero_iff n e (f.ulpExponent n 1 e)
    -- above the smallest unit there are whole units to be rounded
    have hunit : f.ulpExponent n 1 e = f.minExponent ∨
        2 ^ f.ulpExponent n 1 e ≤ (n * 2 ^ e : Rat) :=
      hlow.imp_right fun h => le_trans (zpow_le_zpow_right₀ one_le_two (by omega)) h
    rw [round, if_neg hn.ne']
    simp only
    generalize f.ulpExponent n 1 e = u at *
    generalize nearestEven (scaled n 1 (e - u)).1 (scaled n 1 (e - u)).2 = m at *
    have hhalf : (2 : Rat) ^ (u - 1) < 2 ^ u := zpow_lt_zpow_right₀ one_lt_two (by omega)
    constructor
    · rintro ⟨t, v, h⟩
      split at h
      · cases h
      · cases h
        have hle := hzero.1 rfl
        obtain rfl | hge := hunit
        · exact hle
        · linarith
    · intro hle
      have hmin : (2 : Rat) ^ (f.minExponent - 1) ≤ 2 ^ (u - 1) :=
        zpow_le_zpow_right₀ one_le_two (by omega)
      obtain rfl : u = f.minExponent := hunit.resolve_right (by linarith)
      obtain rfl := hzero.2 hle
      refine ⟨_, _, if_neg ?_⟩
      have hcarry := Nat.two_pow_pos f.precision
      rintro (hlt | ⟨-, hfull⟩)
      · omega
      · exact absurd hfull (Nat.not_le.2 hcarry)

protected theorem mul_comm (f : Format) (a b : Datum) : f.mul a b = f.mul b a := by
  cases a <;> cases b <;> simp only [mul, Bool.xor_comm, Nat.mul_comm, Int.add_comm]

/-- The sign of a zero does not show in a sum with a value that is not zero. -/
theorem add_zero_congr (f : Format) {m : Nat} (hm : m ≠ 0) (u s t : Bool) (e d : Int) :
    f.add (.finite u m e) (.finite s 0 d) = f.add (.finite u m e) (.finite t 0 d) ∧
      f.add (.finite s 0 d) (.finite u m e) = f.add (.finite t 0 d) (.finite u m e) := by
  have hsigned : ∀ s, signed s 0 = 0 := by decide
  have hsum : ∀ k, signed u (m <<< k) ≠ 0 := by
    intro k
    have hshift : m <<< k ≠ 0 := by
      rw [Nat.shiftLeft_eq]
      exact Nat.mul_ne_zero hm (Nat.two_pow_pos k).ne'
    unfold signed
    split <;> omega
  simp only [add, Nat.zero_shiftLeft, hsigned, add_zero, zero_add, hsum, if_false, and_self]

end Format

namespace Single

variable {x y x' y' : Single}

/-! ### Differences -/

theorem zero_lt_iff (hx : x.isFinite) : 0 < x ↔ 0 < x.toRat := by
  rw [lt_iff_toRat_lt toRat_zero.1 hx, toRat_zero.2]

/-- The sign of a difference is that of the exact one, which is a multiple of the smallest scalar. -/
theorem sub_pos_iff (hx : x.isFinite) (hy : y.isFinite) : 0 < x - y ↔ y < x := by
  have hround := sub_rounded hx hy
  have hvalue : x.toRat - y.toRat = ((x.signedUnits - y.signedUnits : Int) : Rat) / 2 ^ 149 := by
    rw [toRat_eq hx, toRat_eq hy, Int.cast_sub, sub_div]
  rw [lt_iff_toRat_lt hy hx]
  constructor
  · intro hpos
    by_contra hle
    have hnot := hround.le_of_le_toRat toRat_zero.1 (by rw [toRat_zero.2]; linarith)
    exact not_le_of_lt hpos hnot
  · intro hlt
    have hunits : (1 : Rat) ≤ ((x.signedUnits - y.signedUnits : Int) : Rat) := by
      have hpos : (0 : Rat) < ((x.signedUnits - y.signedUnits : Int) : Rat) / 2 ^ 149 := by
        rw [← hvalue]
        linarith
      have hpos' := (div_pos_iff_of_pos_right (by positivity)).1 hpos
      exact_mod_cast Int.add_one_le_iff.2 (Int.cast_pos.1 hpos')
    have hsmallest : (⟨1⟩ : Single).toRat = 1 / 2 ^ 149 := by rw [toRat_eq rfl]; rfl
    refine lt_of_lt_of_le (show (0 : Single) < ⟨1⟩ by decide) (hround.le_of_toRat_le rfl ?_)
    rw [hsmallest, hvalue]
    gcongr

/-- A zero taken apart keeps its sign only. -/
theorem decode_of_toRat_eq_zero (hx : x.isFinite) (h0 : x.toRat = 0) :
    x.decode = .finite x.signBit 0 (-149) := by
  have hzero : units x.magnitude = 0 := by
    rw [toRat_eq hx, div_eq_zero_iff] at h0
    have hsigned : x.signedUnits = 0 := by exact_mod_cast h0.resolve_right (by positivity)
    unfold signedUnits at hsigned
    cases hs : x.signBit <;> simpa [Format.signed, hs] using hsigned
  have hmag : x.magnitude = 0 := units_strictMono.injective (hzero.trans (by rfl))
  unfold decode
  simp [not_isNaN hx, hmag]

theorem decode_of_toRat_ne_zero (hx : x.isFinite) (h0 : x.toRat ≠ 0) :
    ∃ s m e, x.decode = .finite s m e ∧ m ≠ 0 := by
  obtain ⟨s, m, e, hdecode, -⟩ := decode_of_isFinite hx
  rw [toRat, hdecode, ne_eq, Format.toRat_finite_eq_zero_iff] at h0
  exact ⟨s, m, e, hdecode, h0⟩

theorem decode_of_pos (hx : 0 < x) (hfin : x.isFinite) :
    ∃ m e, x.decode = .finite false m e ∧ m ≠ 0 := by
  have hpos := (zero_lt_iff hfin).1 hx
  obtain ⟨s, m, e, hdecode, hm⟩ := decode_of_toRat_ne_zero hfin hpos.ne'
  rw [toRat, hdecode, Format.toRat_finite, Format.cast_signed] at hpos
  cases s with
  | false => exact ⟨m, e, hdecode, hm⟩
  | true => exact absurd hpos (not_lt.2 (mul_nonpos_of_nonpos_of_nonneg (by simp) (by positivity)))

/-- The signs of zeros do not show in a difference that is not zero. -/
theorem sub_congr (hx : x.isFinite) (hx' : x'.isFinite) (hy : y.isFinite) (hy' : y'.isFinite)
    (hxx : x.toRat = x'.toRat) (hyy : y.toRat = y'.toRat) (hne : x.toRat ≠ y.toRat) :
    x - y = x' - y' := by
  show pack (Format.binary32.sub x.decode y.decode) = pack (Format.binary32.sub x'.decode y'.decode)
  by_cases hx0 : x.toRat = 0
  · have hy0 : y.toRat ≠ 0 := fun hy0 => hne (hx0.trans hy0.symm)
    obtain rfl := eq_of_toRat_eq hy hy' hyy hy0
    obtain ⟨s, m, e, hdecode, hm⟩ := decode_of_toRat_ne_zero hy hy0
    rw [decode_of_toRat_eq_zero hx hx0, decode_of_toRat_eq_zero hx' (hxx ▸ hx0), hdecode]
    exact congrArg pack (Format.add_zero_congr _ hm _ _ _ _ _).2
  · obtain rfl := eq_of_toRat_eq hx hx' hxx hx0
    by_cases hy0 : y.toRat = 0
    · obtain ⟨s, m, e, hdecode, hm⟩ := decode_of_toRat_ne_zero hx hx0
      rw [decode_of_toRat_eq_zero hy hy0, decode_of_toRat_eq_zero hy' (hyy ▸ hy0), hdecode]
      exact congrArg pack (Format.add_zero_congr _ hm _ _ _ _ _).1
    · rw [eq_of_toRat_eq hy hy' hyy hy0]

/-! ### Products -/

protected theorem mul_comm (x y : Single) : x * y = y * x := congrArg pack (Format.mul_comm _ _ _)

/-- No number, or zero. -/
def Null (x : Single) : Prop := x.isNaN ∨ x.isFinite ∧ x.toRat = 0

theorem Null.not_pos (hx : x.Null) : ¬ 0 < x := by
  rcases hx with hnan | ⟨hfin, hzero⟩
  · intro h
    rw [(lt_iff.1 h).2.1] at hnan
    cases hnan
  · rw [zero_lt_iff hfin, hzero]
    exact lt_irrefl 0

theorem pos_of_not_null (h0 : 0 ≤ x) (hx : ¬ x.Null) : 0 < x := by
  obtain ⟨hzero, hnan, hkey⟩ := le_iff.1 h0
  refine lt_iff.2 ⟨hzero, hnan, lt_of_le_of_ne hkey fun heq => hx ?_⟩
  have hsame : x.sameValue 0 := by simp [sameValue, hnan, hzero, heq]
  have hfin := isFinite_of_sameValue hsame toRat_zero.1
  exact .inr ⟨hfin, ((sameValue_iff hfin toRat_zero.1).1 hsame).trans toRat_zero.2⟩

theorem Null.decode (hx : x.Null) : x.decode = .nan ∨ x.decode = .finite x.signBit 0 (-149) := by
  rcases hx with hnan | ⟨hfin, hzero⟩
  · exact .inl (by simp [Single.decode, hnan])
  · exact .inr (decode_of_toRat_eq_zero hfin hzero)

theorem null_pack_nan : (pack .nan).Null := .inl rfl

theorem null_pack_zero (s : Bool) : (pack (.finite s 0 (-149))).Null := by
  refine .inr ?_
  cases s <;> decide

/-- A product with such a factor is no number, or zero. -/
theorem Null.mul_right (hx : x.Null) (y : Single) : (x * y).Null := by
  show (pack (Format.binary32.mul x.decode y.decode)).Null
  rcases hx.decode with hdecode | hdecode
  · rw [hdecode]
    exact null_pack_nan
  · rw [hdecode]
    cases y.decode with
    | nan => exact null_pack_nan
    | infinite t => exact null_pack_nan
    | finite t n d =>
      simp only [Format.mul, Format.round, Nat.zero_mul, if_true]
      exact null_pack_zero _

theorem Null.mul_left (hy : y.Null) (x : Single) : (x * y).Null := by
  rw [Single.mul_comm]
  exact hy.mul_right x

/-- The product of two scalars is at most half of the smallest positive one. -/
def Vanishes (x y : Single) : Prop := x.isFinite ∧ y.isFinite ∧ x.toRat * y.toRat ≤ 1 / 2 ^ 150

instance (x y : Single) : Decidable (Vanishes x y) := inferInstanceAs (Decidable (_ ∧ _ ∧ _))

/-- A rounded result is zero only if the significand is. -/
theorem null_pack_iff {q : Rat} {d : Datum} (h : Format.binary32.Rounded q d) :
    (pack d).Null ↔ ∃ t u, d = .finite t 0 u := by
  have hnumber := (rounded_pack h).isNaN
  cases h with
  | @finite s m e hfits _ _ =>
    obtain ⟨hfin, hvalue⟩ := pack_finite s hfits
    rw [Null, hnumber, hvalue, Format.toRat_finite_eq_zero_iff]
    simp [hfin]
  | @infinite s _ =>
    rw [Null, hnumber]
    simp [pack_infinite_not_isFinite s]

/-- The product of finite scalars is zero exactly if the exact product is at most half of the smallest
positive scalar. -/
theorem null_mul_iff (hx : x.isFinite) (hy : y.isFinite) :
    (x * y).Null ↔ |x.toRat * y.toRat| ≤ 1 / 2 ^ 150 := by
  obtain ⟨s, m, e, hdx, -⟩ := decode_of_isFinite hx
  obtain ⟨t, n, d, hdy, -⟩ := decode_of_isFinite hy
  have hvalue : |x.toRat * y.toRat| = ((m * n : Nat) : Rat) * 2 ^ (e + d) := by
    rw [abs_mul, toRat, toRat, hdx, hdy, Format.abs_toRat_finite, Format.abs_toRat_finite,
      zpow_add₀ two_ne_zero, Nat.cast_mul, mul_mul_mul_comm]
  have hmul : x * y = pack (Format.binary32.round (s != t) (m * n) 1 (e + d)) := by
    show pack (Format.binary32.mul x.decode y.decode) = _
    rw [hdx, hdy]
    rfl
  rw [hmul, null_pack_iff (Format.round_rounded (by decide) (by decide) _ Nat.one_pos _ _),
    Format.round_eq_zero_iff (by decide) (by decide), half_smallest, hvalue]

/-- Only an infinity is positive and not finite. -/
theorem eq_infinity (hx : 0 < x) (hfin : ¬ x.isFinite) : x = infinity := by
  obtain ⟨-, hnan, hkey⟩ := lt_iff.1 hx
  have hle : ¬ 0x7f800000 < x.magnitude := of_decide_eq_false hnan
  have hge : ¬ x.magnitude < 0x7f800000 := fun h => hfin (decide_eq_true h)
  rw [show (0 : Single).key = 0 by decide, key] at hkey
  split at hkey
  · omega
  · rename_i hs
    exact eq_of_parts (Bool.eq_false_iff.2 hs) (show x.magnitude = 0x7f800000 by omega)

/-- A positive scalar times an infinity. -/
theorem mul_infinity (hx : 0 < x) : x * infinity = infinity := by
  by_cases hfin : x.isFinite
  · obtain ⟨m, e, hdecode, hm⟩ := decode_of_pos hx hfin
    show pack (Format.binary32.mul x.decode infinity.decode) = _
    rw [hdecode, show infinity.decode = .infinite false from rfl, Format.mul, if_neg hm]
    rfl
  · rw [eq_infinity hx hfin]
    rfl

/-- A product of positive scalars is not negative, and zero exactly if it is too small. -/
theorem mul_of_pos (hx : 0 < x) (hy : 0 < y) : 0 ≤ x * y ∧ ((x * y).Null ↔ Vanishes x y) := by
  by_cases hfx : x.isFinite
  · by_cases hfy : y.isFinite
    · have hpos : 0 < x.toRat * y.toRat := mul_pos ((zero_lt_iff hfx).1 hx) ((zero_lt_iff hfy).1 hy)
      refine ⟨(mul_rounded hfx hfy).le_of_toRat_le toRat_zero.1 (toRat_zero.2 ▸ hpos.le), ?_⟩
      rw [null_mul_iff hfx hfy, abs_of_pos hpos]
      exact ⟨fun h => ⟨hfx, hfy, h⟩, fun h => h.2.2⟩
    · obtain rfl := eq_infinity hy hfy
      rw [mul_infinity hx]
      exact ⟨le_of_lt hy, iff_of_false (fun h => h.not_pos hy) fun h => hfy h.2.1⟩
  · obtain rfl := eq_infinity hx hfx
    rw [Single.mul_comm, mul_infinity hy]
    exact ⟨le_of_lt hx, iff_of_false (fun h => h.not_pos hx) fun h => hfx h.1⟩

/-- Products of positive scalars are positive, unless they are too small. -/
theorem mul_pos_iff (hx : 0 < x) (hy : 0 < y) : 0 < x * y ↔ ¬ Vanishes x y := by
  obtain ⟨h0, hnull⟩ := mul_of_pos hx hy
  rw [← hnull]
  exact ⟨fun h hn => hn.not_pos h, pos_of_not_null h0⟩

/-- What is not positive is zero after negative numbers became zero. -/
theorem max_zero (hx : x.isNaN = false) : 0 < x ∧ x.max 0 = x ∨ ¬ 0 < x ∧ (x.max 0).Null := by
  have hmax : x.max 0 = if x < 0 then 0 else x := by
    unfold Single.max
    rw [hx]
    rfl
  rw [hmax]
  by_cases hneg : x < 0
  · have hnot : ¬ 0 < x := fun hpos => not_le_of_lt hpos (le_of_lt hneg)
    rw [if_pos hneg]
    exact .inr ⟨hnot, .inr toRat_zero⟩
  · have h0 : 0 ≤ x := by rwa [← not_le_iff rfl hx, not_not] at hneg
    rw [if_neg hneg]
    by_cases hpos : 0 < x
    · exact .inl ⟨hpos, rfl⟩
    · exact .inr ⟨hpos, by_contra fun hn => hpos (pos_of_not_null h0 hn)⟩

section Factors

variable {u v w : Single} (hu : 0 < u) (hv : 0 < v) (hfu : u.isFinite) (hfv : v.isFinite) (hux : u ≤ x)
  (hvy : v ≤ y)

include hu hv hfu hfv hux hvy

theorem toRat_mul_le (hx : x.isFinite) (hy : y.isFinite) :
    u.toRat * v.toRat ≤ x.toRat * y.toRat := by
  rw [le_iff_toRat_le hfu hx] at hux
  rw [le_iff_toRat_le hfv hy] at hvy
  exact mul_le_mul hux hvy ((zero_lt_iff hfv).1 hv).le (((zero_lt_iff hfu).1 hu).le.trans hux)

/-- Factors that are large enough have a product that is. -/
theorem le_mul (hw : w.isFinite) (hle : w.toRat ≤ u.toRat * v.toRat) : w ≤ x * y := by
  by_cases hfx : x.isFinite
  · by_cases hfy : y.isFinite
    · exact (mul_rounded hfx hfy).le_of_toRat_le hw
        (hle.trans (toRat_mul_le hu hv hfu hfv hux hvy hfx hfy))
    · rw [eq_infinity (lt_of_lt_of_le hv hvy) hfy, mul_infinity (lt_of_lt_of_le hu hux)]
      exact le_infinity (not_isNaN hw)
  · rw [eq_infinity (lt_of_lt_of_le hu hux) hfx, Single.mul_comm, mul_infinity (lt_of_lt_of_le hv hvy)]
    exact le_infinity (not_isNaN hw)

theorem not_vanishes (hlt : 1 / 2 ^ 150 < u.toRat * v.toRat) : ¬ Vanishes x y := by
  rintro ⟨hfx, hfy, hle⟩
  exact (hlt.trans_le (toRat_mul_le hu hv hfu hfv hux hvy hfx hfy)).not_ge hle

end Factors

end Single
end SortLast
