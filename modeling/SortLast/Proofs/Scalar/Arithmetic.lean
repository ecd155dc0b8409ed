import SortLast.Proofs.Scalar.Order
import SortLast.Proofs.Scalar.Rounding

/-!
# Arithmetic of single-precision scalars

The operations on scalars round the exact result of the operands' values once, also where the result
is subnormal or carried to the next exponent.

* `Single.Rounded`: what a rounded operation gives for an exact result.
* `Single.toRat_pack`: packing keeps the value.
* `Single.add_rounded`, `Single.sub_rounded`, `Single.mul_rounded`, `Single.div_rounded`.
* `Single.Rounded.between`, `Single.Rounded.eq`, `Single.Rounded.le`: results between finite scalars,
  exact results, and the order of results.
* `Single.sameValue_iff`: finite scalars that agree as numbers.
-/

namespace SortLast
namespace Single

variable {x y lo hi : Single} {q : Rat}

/-! ### Bits -/

theorem ofParts_toNat (s : Bool) {m : Nat} (hm : m < 0x80000000) :
    (ofParts s m).bits.toNat = if s then 0x80000000 + m else m := by
  unfold ofParts
  cases s
  · exact UInt32.toNat_ofNat_of_lt' (by simp [UInt32.size]; omega)
  · exact UInt32.toNat_ofNat_of_lt' (by simp [UInt32.size]; omega)

theorem magnitude_ofParts (s : Bool) {m : Nat} (hm : m < 0x80000000) :
    (ofParts s m).magnitude = m := by
  unfold magnitude
  rw [ofParts_toNat s hm]
  split <;> omega

theorem signBit_ofParts (s : Bool) {m : Nat} (hm : m < 0x80000000) :
    (ofParts s m).signBit = s := by
  unfold signBit
  rw [ofParts_toNat s hm]
  cases s
  · exact decide_eq_false (by simpa using hm)
  · exact decide_eq_true (by simp)

/-- Sign and magnitude are all of a scalar. -/
theorem eq_of_parts (hs : x.signBit = y.signBit) (hm : x.magnitude = y.magnitude) : x = y := by
  have hx := x.bits.toNat_lt
  have hy := y.bits.toNat_lt
  unfold signBit at hs
  unfold magnitude at hm
  rw [decide_eq_decide] at hs
  have hbits : x.bits = y.bits := UInt32.toNat_inj.1 (by omega)
  exact congrArg Single.mk hbits

/-! ### Values -/

/-- A finite scalar taken apart. -/
theorem decode_of_isFinite (hx : x.isFinite) : ∃ s m e,
    x.decode = .finite s m e ∧ m < 2 ^ 24 ∧ -149 ≤ e ∧ e ≤ 104 := by
  have hlt : x.magnitude < 0x7f800000 := of_decide_eq_true hx
  have hexp : x.magnitude / 0x800000 ≠ 255 := by omega
  unfold decode
  simp only [not_isNaN hx, hexp, if_false, Bool.false_eq_true]
  split
  · exact ⟨_, _, _, rfl, by omega, by omega, by omega⟩
  · exact ⟨_, _, _, rfl, by omega, by omega, by omega⟩

theorem decode_of_infinite (hn : x.isNaN = false) (hx : x.isFinite = false) :
    x.decode = .infinite x.signBit := by
  have hle : ¬ x.magnitude < 0x7f800000 := of_decide_eq_false hx
  have hge : ¬ 0x7f800000 < x.magnitude := of_decide_eq_false hn
  have hexp : x.magnitude / 0x800000 = 255 := by omega
  unfold decode
  simp only [hn, hexp, if_true, if_false, Bool.false_eq_true]

theorem represents_toRat (hx : x.isFinite) : Format.binary32.Represents x.toRat := by
  obtain ⟨s, m, e, hdecode, hm, he, -⟩ := decode_of_isFinite hx
  refine ⟨Format.signed s m, e, he, ?_, ?_⟩
  · have habs : |Format.signed s m| = m := by cases s <;> simp [Format.signed]
    rw [habs]
    exact_mod_cast hm
  · rw [toRat, hdecode, Format.toRat_finite]

/-- The largest value has a full significand at the largest exponent. -/
theorem abs_toRat_le (hx : x.isFinite) : |x.toRat| ≤ (2 ^ 24 - 1) * 2 ^ (104 : Int) := by
  obtain ⟨s, m, e, hdecode, hm, -, he⟩ := decode_of_isFinite hx
  have hm' : (m : Rat) ≤ 2 ^ 24 - 1 := by
    have : (m : Rat) + 1 ≤ 2 ^ 24 := by exact_mod_cast hm
    linarith
  rw [toRat, hdecode, Format.abs_toRat_finite]
  gcongr
  norm_num

theorem abs_toRat_lt (hx : x.isFinite) : |x.toRat| < Format.binary32.limit :=
  (abs_toRat_le hx).trans_lt (by norm_num [Format.limit, Format.binary32])

/-- Scalars of one value are equal, unless they are zeros. -/
theorem eq_of_toRat_eq (hx : x.isFinite) (hy : y.isFinite) (h : x.toRat = y.toRat)
    (h0 : x.toRat ≠ 0) : x = y := by
  have hkey : x.key = y.key := by
    have hle := (toRat_le_toRat_iff hx hy).1 h.le
    have hge := (toRat_le_toRat_iff hy hx).1 h.ge
    omega
  have hne : x.magnitude ≠ 0 := by
    intro hzero
    rw [toRat_eq hx, signedUnits, hzero] at h0
    exact h0 (by cases x.signBit <;> simp [Format.signed, units])
  unfold key at hkey
  refine eq_of_parts ?_ ?_
  · cases hs : x.signBit <;> cases ht : y.signBit <;> simp [hs, ht] at hkey ⊢ <;> omega
  · split at hkey <;> split at hkey <;> omega

/-- A scalar that is not zero is at least as large as the smallest one. -/
theorem le_abs_toRat (hx : x.isFinite) (h0 : x.toRat ≠ 0) : 1 / 2 ^ 149 ≤ |x.toRat| := by
  rw [toRat_eq hx] at *
  have hne : x.signedUnits ≠ 0 := fun hzero => h0 (by rw [hzero, Int.cast_zero, zero_div])
  have hone : (1 : Rat) ≤ |(x.signedUnits : Rat)| := by exact_mod_cast Int.one_le_abs hne
  rw [abs_div, abs_of_pos (show (0 : Rat) < 2 ^ 149 by positivity)]
  gcongr

theorem sameValue_iff (hx : x.isFinite) (hy : y.isFinite) : x.sameValue y ↔ x.toRat = y.toRat := by
  have hkey : x.key = y.key ↔ x.toRat = y.toRat := by
    rw [le_antisymm_iff, le_antisymm_iff, toRat_le_toRat_iff hx hy, toRat_le_toRat_iff hy hx]
  simp [sameValue, not_isNaN hx, not_isNaN hy, hkey]

/-- Nothing but finite scalars agrees with a finite one. -/
theorem isFinite_of_sameValue (h : x.sameValue y) (hy : y.isFinite) : x.isFinite := by
  simp only [sameValue, Bool.and_eq_true, decide_eq_true_eq] at h
  have hkey := h.2
  have hlt : y.magnitude < 0x7f800000 := of_decide_eq_true hy
  unfold key at hkey
  refine decide_eq_true ?_
  split at hkey <;> split at hkey <;> omega

/-! ### Selection -/

theorem min_finite (hx : x.isFinite) (hy : y.isFinite) :
    (x.min y).isFinite ∧ (x.min y).toRat = min x.toRat y.toRat := by
  unfold Single.min
  simp only [not_isNaN hx, not_isNaN hy, Bool.false_eq_true, if_false]
  split
  · rename_i hlt
    exact ⟨hy, (min_eq_right ((lt_iff_toRat_lt hy hx).1 hlt).le).symm⟩
  · rename_i hge
    exact ⟨hx, (min_eq_left (not_lt.1 fun hlt => hge ((lt_iff_toRat_lt hy hx).2 hlt))).symm⟩

theorem max_finite (hx : x.isFinite) (hy : y.isFinite) :
    (x.max y).isFinite ∧ (x.max y).toRat = max x.toRat y.toRat := by
  unfold Single.max
  simp only [not_isNaN hx, not_isNaN hy, Bool.false_eq_true, if_false]
  split
  · rename_i hlt
    exact ⟨hy, (max_eq_right ((lt_iff_toRat_lt hx hy).1 hlt).le).symm⟩
  · rename_i hge
    exact ⟨hx, (max_eq_left (not_lt.1 fun hlt => hge ((lt_iff_toRat_lt hx hy).2 hlt))).symm⟩

/-! ### Packing -/

/-- The units of a significand at an exponent, also of one that is carried. -/
theorem units_significand {k m : Nat} (hm : m ≤ 2 ^ 24) (h : k = 0 ∨ 2 ^ 23 ≤ m) :
    units (k * 0x800000 + m) = m * 2 ^ k := by
  unfold units
  rcases Nat.lt_or_ge m 0x800000 with hlt | hge
  · obtain rfl : k = 0 := h.resolve_right (by omega)
    rw [if_pos (by omega)]
    omega
  · rcases Nat.lt_or_eq_of_le hm with hlt | rfl
    · have hdiv : (k * 0x800000 + m) / 0x800000 = k + 1 := by omega
      have hmod : (k * 0x800000 + m) % 0x800000 = m - 0x800000 := by omega
      rw [hdiv, hmod, if_neg (by omega), Nat.add_sub_cancel, Nat.add_sub_cancel' hge]
    · have hdiv : (k * 0x800000 + 2 ^ 24) / 0x800000 = k + 2 := by omega
      have hmod : (k * 0x800000 + 2 ^ 24) % 0x800000 = 0 := by omega
      rw [hdiv, hmod, if_neg (by omega), Nat.add_zero, show k + 2 - 1 = k + 1 by omega, pow_succ]
      omega

/-- Packing a datum of the format keeps its value. -/
theorem pack_finite (s : Bool) {m : Nat} {e : Int} (h : Format.binary32.Fits m e) :
    (pack (.finite s m e)).isFinite ∧ (pack (.finite s m e)).toRat = (Datum.finite s m e).toRat := by
  obtain ⟨hlow, hhigh, hm, hfinite, hnormal⟩ := h
  simp only [Format.binary32] at hlow hhigh hm hfinite hnormal
  obtain ⟨k, hk⟩ := Int.eq_ofNat_of_zero_le (show 0 ≤ e + 149 by omega)
  obtain rfl : e = (k : Int) - 149 := by omega
  have hpack : pack (.finite s m ((k : Int) - 149)) = ofParts s (k * 0x800000 + m) := by
    rw [pack, hk, Int.toNat_natCast, Nat.shiftLeft_eq]
  have hbound : k * 0x800000 + m < 0x7f800000 := by
    rcases Nat.lt_or_ge k 253 with hlt | hge
    · omega
    · have := hfinite (by omega)
      omega
  have hmag := magnitude_ofParts s (show k * 0x800000 + m < 0x80000000 by omega)
  have hsign := signBit_ofParts s (show k * 0x800000 + m < 0x80000000 by omega)
  have hfin : (ofParts s (k * 0x800000 + m)).isFinite := by
    rw [isFinite, hmag]
    exact decide_eq_true hbound
  rw [hpack]
  refine ⟨hfin, ?_⟩
  rw [toRat_eq hfin, signedUnits, hmag, hsign, units_significand hm (hnormal.imp (by omega) id),
    toRat_finite_natCast]

/-- What a rounded operation gives for the exact result `q`. -/
inductive Rounded (q : Rat) (x : Single) : Prop
  | finite : x.isFinite → Format.binary32.Nearest q x.toRat → |q| < Format.binary32.limit →
      Rounded q x
  | top : x = infinity → Format.binary32.limit ≤ q → Rounded q x
  | bottom : x = negInfinity → Format.binary32.limit ≤ -q → Rounded q x

theorem rounded_pack {d : Datum} (h : Format.binary32.Rounded q d) : Rounded q (pack d) := by
  cases h with
  | @finite s m e hfits hnear hlimit =>
    obtain ⟨hfin, hvalue⟩ := pack_finite s hfits
    exact .finite hfin (by rwa [hvalue]) hlimit
  | @infinite s hlimit =>
    cases s
    · exact .top rfl (by simpa using hlimit)
    · exact .bottom rfl (by simpa using hlimit)

/-- Unpacked values are rounded and packed. -/
theorem encode_eq_pack (d : Datum) : encode d = pack (Format.binary32.convert d) := by
  unfold encode pack
  cases Format.binary32.convert d <;> rfl

/-! ### Rounded results -/

/-- Half of the smallest positive scalar. -/
theorem half_smallest : (2 : Rat) ^ (Format.binary32.minExponent - 1) = 1 / 2 ^ 150 := by
  rw [show Format.binary32.minExponent - 1 = -(150 : Nat) by decide, zpow_neg, zpow_natCast, one_div]

namespace Rounded

/-- A result between finite scalars is finite and between them. -/
theorem between (h : Rounded q x) (hlo : lo.isFinite) (hhi : hi.isFinite) (hle : lo.toRat ≤ q)
    (hge : q ≤ hi.toRat) :
    x.isFinite ∧ Format.binary32.Nearest q x.toRat ∧ lo.toRat ≤ x.toRat ∧ x.toRat ≤ hi.toRat := by
  have hmin := (abs_lt.1 (abs_toRat_lt hlo)).1
  have hmax := (abs_lt.1 (abs_toRat_lt hhi)).2
  cases h with
  | finite hfin hnear =>
    exact ⟨hfin, hnear, hnear.ge (represents_toRat hlo) hle, hnear.le (represents_toRat hhi) hge⟩
  | top _ hlimit => linarith
  | bottom _ hlimit => linarith

/-- The value of a scalar is its own rounding. -/
theorem eq (h : Rounded y.toRat x) (hy : y.isFinite) : x.isFinite ∧ x.toRat = y.toRat := by
  obtain ⟨hfin, -, hle, hge⟩ := h.between hy hy le_rfl le_rfl
  exact ⟨hfin, hge.antisymm hle⟩

/-- A result is finite if the exact one is below the limit. -/
theorem isFinite_iff (h : Rounded q x) : x.isFinite ↔ |q| < Format.binary32.limit := by
  cases h with
  | finite hfin _ hlimit => exact iff_of_true hfin hlimit
  | top htop hlimit =>
    rw [htop]
    exact iff_of_false (by decide) (not_lt.2 (hlimit.trans (le_abs_self q)))
  | bottom hbottom hlimit =>
    rw [hbottom]
    exact iff_of_false (by decide) (not_lt.2 (hlimit.trans (neg_le_abs q)))

theorem nearest (h : Rounded q x) (hx : x.isFinite) : Format.binary32.Nearest q x.toRat := by
  cases h with
  | finite _ hnear => exact hnear
  | top htop => rw [htop] at hx; cases hx
  | bottom hbottom => rw [hbottom] at hx; cases hx

theorem isNaN (h : Rounded q x) : x.isNaN = false := by
  cases h with
  | finite hfin => exact not_isNaN hfin
  | top htop => rw [htop]; rfl
  | bottom hbottom => rw [hbottom]; rfl

/-- The results of ordered exact values are ordered. -/
theorem le {q' : Rat} (h : Rounded q x) (h' : Rounded q' y) (hx : x.isFinite) (hy : y.isFinite)
    (hlt : q < q') : x.toRat ≤ y.toRat :=
  (h.nearest hx).mono (h'.nearest hy) (represents_toRat hx) (represents_toRat hy) hlt

/-- A finite result is off by half a unit of the last place at most. -/
theorem error (h : Rounded q x) (hx : x.isFinite) :
    |x.toRat - q| ≤ |q| / 2 ^ 24 + 1 / 2 ^ 150 := by
  have herror := (h.nearest hx).error
  rwa [half_smallest] at herror

/-- A result is not above a scalar that the exact one is not above, also where it is infinite. -/
theorem le_of_le_toRat (h : Rounded q x) (hhi : hi.isFinite) (hle : q ≤ hi.toRat) : x ≤ hi := by
  have hmax := (abs_lt.1 (abs_toRat_lt hhi)).2
  cases h with
  | finite hfin hnear => exact (le_iff_toRat_le hfin hhi).2 (hnear.le (represents_toRat hhi) hle)
  | top _ hlimit => linarith
  | bottom hbottom =>
    rw [hbottom]
    exact negInfinity_le (not_isNaN hhi)

theorem le_of_toRat_le (h : Rounded q x) (hlo : lo.isFinite) (hle : lo.toRat ≤ q) : lo ≤ x := by
  have hmin := (abs_lt.1 (abs_toRat_lt hlo)).1
  cases h with
  | finite hfin hnear => exact (le_iff_toRat_le hlo hfin).2 (hnear.ge (represents_toRat hlo) hle)
  | top htop =>
    rw [htop]
    exact le_infinity (not_isNaN hlo)
  | bottom _ hlimit => linarith

end Rounded

/-! ### Operations -/

theorem add_rounded (hx : x.isFinite) (hy : y.isFinite) : Rounded (x.toRat + y.toRat) (x + y) := by
  obtain ⟨s, m, e, hdx, -⟩ := decode_of_isFinite hx
  obtain ⟨t, n, d, hdy, -⟩ := decode_of_isFinite hy
  have h := rounded_pack (Format.add_rounded (f := .binary32) (by decide) (by decide) s t m n e d)
  rwa [← hdx, ← hdy] at h

theorem sub_rounded (hx : x.isFinite) (hy : y.isFinite) : Rounded (x.toRat - y.toRat) (x - y) := by
  obtain ⟨s, m, e, hdx, -⟩ := decode_of_isFinite hx
  obtain ⟨t, n, d, hdy, -⟩ := decode_of_isFinite hy
  have h := rounded_pack (Format.sub_rounded (f := .binary32) (by decide) (by decide) s t m n e d)
  rwa [← hdx, ← hdy] at h

theorem mul_rounded (hx : x.isFinite) (hy : y.isFinite) : Rounded (x.toRat * y.toRat) (x * y) := by
  obtain ⟨s, m, e, hdx, -⟩ := decode_of_isFinite hx
  obtain ⟨t, n, d, hdy, -⟩ := decode_of_isFinite hy
  have h := rounded_pack (Format.mul_rounded (f := .binary32) (by decide) (by decide) s t m n e d)
  rwa [← hdx, ← hdy] at h

theorem div_rounded (hx : x.isFinite) (hy : y.isFinite) (h0 : y.toRat ≠ 0) :
    Rounded (x.toRat / y.toRat) (x / y) := by
  obtain ⟨s, m, e, hdx, -⟩ := decode_of_isFinite hx
  obtain ⟨t, n, d, hdy, -⟩ := decode_of_isFinite hy
  have hn : 0 < n := by
    rw [toRat, hdy, ne_eq, Format.toRat_finite_eq_zero_iff] at h0
    exact Nat.pos_of_ne_zero h0
  have h := rounded_pack (Format.div_rounded (f := .binary32) (by decide) (by decide) s t m hn e d)
  rwa [← hdx, ← hdy] at h

theorem ofNat_rounded (n : Nat) : Rounded n (ofNat n) := by
  have hround := rounded_pack (Format.round_rounded (f := .binary32) (by decide) (by decide) false
    Nat.one_pos n 0)
  have hvalue : ((Format.signed false n : Int) : Rat) / (1 : Nat) * 2 ^ (0 : Int) = n := by
    simp [Format.signed]
  have hpack : ofNat n = pack (Format.binary32.round false n 1 0) := encode_eq_pack _
  rwa [hvalue, ← hpack] at hround

/-- Counts below `2 ^ 24` are scalars. -/
theorem toRat_ofNat {n : Nat} (hn : n < 2 ^ 24) : (ofNat n).isFinite ∧ (ofNat n).toRat = n := by
  have hn' : |(n : Rat)| < 2 ^ 24 := by
    rw [abs_of_nonneg (Nat.cast_nonneg n)]
    exact_mod_cast hn
  have hlimit : (2 : Rat) ^ 24 ≤ Format.binary32.limit := by norm_num [Format.limit, Format.binary32]
  have hrep : Format.binary32.Represents n :=
    ⟨n, 0, by decide, by rw [abs_of_nonneg (Int.natCast_nonneg n)]; exact_mod_cast hn, by simp⟩
  have hfin := (ofNat_rounded n).isFinite_iff.2 (hn'.trans_le hlimit)
  exact ⟨hfin, ((ofNat_rounded n).nearest hfin).eq hrep⟩

theorem toRat_zero : (0 : Single).isFinite ∧ (0 : Single).toRat = 0 := toRat_ofNat (by decide)

theorem toRat_one : (1 : Single).isFinite ∧ (1 : Single).toRat = 1 := by
  have h := toRat_ofNat (n := 1) (by decide)
  rwa [Nat.cast_one] at h

/-- The quotient of two machine words is a number, unless the divisor is zero: no word is too large for
a scalar. -/
theorem div_ofNat_isNaN {m n : Nat} (hm : m < 2 ^ 64) (hn : n < 2 ^ 64) (hpos : 0 < n) :
    (ofNat m / ofNat n).isNaN = false := by
  have hlimit : (2 : Rat) ^ 64 ≤ Format.binary32.limit := by norm_num [Format.limit, Format.binary32]
  have hfin : ∀ k < 2 ^ 64, (ofNat k).isFinite := fun k hk => by
    rw [(ofNat_rounded k).isFinite_iff, abs_of_nonneg (Nat.cast_nonneg k)]
    exact (show (k : Rat) < 2 ^ 64 by exact_mod_cast hk).trans_le hlimit
  have hle : 1 ≤ ofNat n := (ofNat_rounded n).le_of_toRat_le toRat_one.1 (by
    rw [toRat_one.2]
    exact_mod_cast hpos)
  rw [le_iff_toRat_le toRat_one.1 (hfin n hn), toRat_one.2] at hle
  exact (div_rounded (hfin m hm) (hfin n hn) (by linarith)).isNaN

/-- A finite scalar times zero is a zero. -/
theorem mul_zero_finite (hx : x.isFinite) : (x * 0).isFinite ∧ (x * 0).toRat = 0 := by
  have hround := mul_rounded hx toRat_zero.1
  rw [toRat_zero.2, mul_zero, ← toRat_zero.2] at hround
  have hvalue := hround.eq toRat_zero.1
  rwa [toRat_zero.2] at hvalue

/-! ### Results that are not finite -/

theorem decode_of_not_isFinite (hx : ¬ x.isFinite) :
    x.decode = .nan ∨ ∃ s, x.decode = .infinite s := by
  cases hn : x.isNaN with
  | true => exact .inl (by simp [decode, hn])
  | false => exact .inr ⟨_, decode_of_infinite hn (Bool.eq_false_iff.2 hx)⟩

theorem pack_nan_not_isFinite : ¬ (pack .nan).isFinite := by decide

theorem pack_infinite_not_isFinite : ∀ s, ¬ (pack (.infinite s)).isFinite := by decide

/-- A product with an infinity or with not-a-number is one of them. -/
theorem mul_not_isFinite (hx : ¬ x.isFinite) (y : Single) : ¬ (x * y).isFinite := by
  show ¬ (pack (Format.binary32.mul x.decode y.decode)).isFinite
  rcases decode_of_not_isFinite hx with hdecode | ⟨s, hdecode⟩
  · rw [hdecode]
    exact pack_nan_not_isFinite
  · rw [hdecode]
    cases y.decode with
    | nan => exact pack_nan_not_isFinite
    | infinite t => exact pack_infinite_not_isFinite _
    | finite t n d =>
      simp only [Format.mul]
      split
      · exact pack_nan_not_isFinite
      · exact pack_infinite_not_isFinite _

/-- So is a sum. -/
theorem add_not_isFinite (x : Single) (hy : ¬ y.isFinite) : ¬ (x + y).isFinite := by
  show ¬ (pack (Format.binary32.add x.decode y.decode)).isFinite
  rcases decode_of_not_isFinite hy with hdecode | ⟨s, hdecode⟩
  · rw [hdecode]
    cases x.decode <;> exact pack_nan_not_isFinite
  · rw [hdecode]
    cases x.decode with
    | nan => exact pack_nan_not_isFinite
    | infinite t =>
      simp only [Format.add]
      split
      · exact pack_infinite_not_isFinite _
      · exact pack_nan_not_isFinite
    | finite t n d => exact pack_infinite_not_isFinite _

/-- An infinite operand decides a sum with a finite one. -/
theorem add_infinite (hx : x.isFinite) {s : Bool} :
    x + pack (.infinite s) = pack (.infinite s) ∧ pack (.infinite s) + x = pack (.infinite s) := by
  obtain ⟨t, m, e, hdecode, -⟩ := decode_of_isFinite hx
  have hinfinite : (pack (.infinite s)).decode = .infinite s := by cases s <;> rfl
  constructor
  · show pack (Format.binary32.add x.decode _) = _
    rw [hdecode, hinfinite]
    rfl
  · show pack (Format.binary32.add _ x.decode) = _
    rw [hdecode, hinfinite]
    rfl

/-- Adding a zero changes a rounded result by the sign of a zero at most. -/
theorem Rounded.add_zero (h : Rounded q x) (hy : y.isFinite) (hzero : y.toRat = 0) :
    Rounded q (x + y) := by
  cases h with
  | finite hfin hnear hlimit =>
    have hsum := add_rounded hfin hy
    rw [hzero, Rat.add_zero] at hsum
    obtain ⟨hfin', hvalue⟩ := hsum.eq hfin
    exact .finite hfin' (by rwa [hvalue]) hlimit
  | top htop hlimit =>
    rw [htop]
    exact .top (add_infinite (s := false) hy).2 hlimit
  | bottom hbottom hlimit =>
    rw [hbottom]
    exact .bottom (add_infinite (s := true) hy).2 hlimit

/-- A sum with a rounded result is rounded once more, or the result was infinite and is the sum. -/
theorem Rounded.finite_add (h : Rounded q y) (hx : x.isFinite) :
    y.isFinite ∧ Rounded (x.toRat + y.toRat) (x + y) ∨ ¬ y.isFinite ∧ x + y = y := by
  cases h with
  | finite hfin => exact .inl ⟨hfin, add_rounded hx hfin⟩
  | top htop =>
    rw [htop]
    exact .inr ⟨by decide, (add_infinite (s := false) hx).1⟩
  | bottom hbottom =>
    rw [hbottom]
    exact .inr ⟨by decide, (add_infinite (s := true) hx).1⟩

end Single
end SortLast
