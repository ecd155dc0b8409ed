import SortLast.Proofs.Partition.Tiling
import SortLast.Proofs.Scalar.Arithmetic
import SortLast.Partition.Bricks

/-!
# Grid lines

The lines of a grid are computed one by one, each from the lower end of its axis and a fraction of the
rounded length, except the last one, which is the upper end. Three roundings stand between a line and
its exact place, and the number of cells is the ceiling of a fourth one.

* `GridAxis`: an interval with a number of cells, as the axes of a leaf are cut.
* `GridAxis.line_between`, `GridAxis.line_le`: the lines run from end to end in order.
* `GridAxis.abs_line_sub`: how far a line is off its exact place.
* `BrickLayout.cellsAlong_ok`: the cells are as many as their largest extent asks for, exactly.
-/

namespace SortLast

namespace Single

/-- The difference of finite scalars is a scalar, or is not small. -/
theorem represents_sub {a b : Single} (ha : a.isFinite) (hb : b.isFinite)
    (hlt : a.toRat < b.toRat) :
    Format.binary32.Represents (b.toRat - a.toRat) ∨ 1 / 2 ^ 125 ≤ b.toRat - a.toRat := by
  have hdiff : b.toRat - a.toRat = ((b.signedUnits - a.signedUnits : Int) : Rat) / 2 ^ 149 := by
    rw [toRat_eq ha, toRat_eq hb]
    push_cast
    ring
  have hpos : 0 < b.signedUnits - a.signedUnits := by
    have hlt' := hlt
    rw [toRat_eq ha, toRat_eq hb, div_lt_div_iff_of_pos_right (by positivity), Int.cast_lt] at hlt'
    omega
  rcases lt_or_ge (b.signedUnits - a.signedUnits) (2 ^ 24) with hsmall | hlarge
  · refine .inl ⟨b.signedUnits - a.signedUnits, -149, le_rfl, ?_, ?_⟩
    · rwa [abs_of_pos hpos]
    · rw [hdiff, div_eq_mul_inv, zpow_neg]
      rfl
  · right
    have hlarge' : (2 : Rat) ^ 24 ≤ ((b.signedUnits - a.signedUnits : Int) : Rat) := by
      exact_mod_cast hlarge
    rw [hdiff, div_le_div_iff₀ (by positivity) (by positivity)]
    linarith

end Single

open Single (Rounded)

/-! ### An axis -/

/-- An interval of finite length that is cut into cells. -/
structure GridAxis (a b : Single) (n : Nat) : Prop where
  min_isFinite : a.isFinite
  max_isFinite : b.isFinite
  lt : a.toRat < b.toRat
  length_isFinite : (b - a).isFinite
  pos : 0 < n
  le : n ≤ 65536

namespace GridAxis

/-- The fraction of the way to a line. -/
def fraction (n i : Nat) : Single := Single.ofNat i / Single.ofNat n

/-- How far a line is from the lower end. -/
def offset (a b : Single) (n i : Nat) : Single := (b - a) * fraction n i

/-- A line of the grid; the last one is the upper end. -/
def line (a b : Single) (n i : Nat) : Single := if i = n then b else a + offset a b n i

variable {a b : Single} {n i j : Nat}

theorem line_of_lt (hi : i < n) : line a b n i = a + offset a b n i := if_neg hi.ne

theorem line_last : line a b n n = b := if_pos rfl

/-! ### Fractions -/

section Fraction

variable (hn : 0 < n) (hle : n ≤ 65536)

include hn hle

theorem fraction_rounded (hi : i ≤ n) : Rounded (i / n) (fraction n i) := by
  obtain ⟨hfi, hvi⟩ := Single.toRat_ofNat (show i < 2 ^ 24 by omega)
  obtain ⟨hfn, hvn⟩ := Single.toRat_ofNat (show n < 2 ^ 24 by omega)
  have h := Single.div_rounded hfi hfn (by rw [hvn]; exact Nat.cast_ne_zero.2 hn.ne')
  rwa [hvi, hvn] at h

theorem fraction_between (hi : i ≤ n) :
    (fraction n i).isFinite ∧ 0 ≤ (fraction n i).toRat ∧ (fraction n i).toRat ≤ 1 := by
  obtain ⟨hf0, hv0⟩ := Single.toRat_ofNat (n := 0) (by decide)
  obtain ⟨hf1, hv1⟩ := Single.toRat_ofNat (n := 1) (by decide)
  have hn' : (0 : Rat) < n := Nat.cast_pos.2 hn
  have hi' : (i : Rat) ≤ n := Nat.cast_le.2 hi
  obtain ⟨hfin, -, hlo, hhi⟩ := (fraction_rounded hn hle hi).between hf0 hf1
    (by rw [hv0, Nat.cast_zero]; positivity) (by rw [hv1, Nat.cast_one]; exact (div_le_one hn').2 hi')
  rw [hv0, Nat.cast_zero] at hlo
  rw [hv1, Nat.cast_one] at hhi
  exact ⟨hfin, hlo, hhi⟩

theorem fraction_zero : (fraction n 0).toRat = 0 := by
  have hround := fraction_rounded hn hle (Nat.zero_le n)
  obtain ⟨hf0, hv0⟩ := Single.toRat_ofNat (n := 0) (by decide)
  rw [Nat.cast_zero, zero_div, ← Nat.cast_zero, ← hv0] at hround
  rw [(hround.eq hf0).2, hv0, Nat.cast_zero]

/-- There are so few lines that the fraction of a line below the last one stays below one. -/
theorem fraction_le (hi : i < n) : (fraction n i).toRat ≤ 1 - 1 / 65536 := by
  have hn' : (0 : Rat) < n := Nat.cast_pos.2 hn
  have hi' : (i : Rat) + 1 ≤ n := by exact_mod_cast hi
  have hle' : (n : Rat) ≤ 65536 := by exact_mod_cast hle
  have hstep : (i : Rat) / n ≤ 1 - 1 / 65536 := by
    rw [div_le_iff₀ hn']
    linarith
  have hnear := (fraction_rounded hn hle hi.le).nearest (fraction_between hn hle hi.le).1
  refine hnear.le ⟨65535, -16, by decide, by decide, ?_⟩ hstep
  norm_num

/-- Different lines have different fractions. -/
theorem fraction_lt (hij : i < j) (hj : j ≤ n) :
    (fraction n i).toRat < (fraction n j).toRat := by
  have hn' : (0 : Rat) < n := Nat.cast_pos.2 hn
  have hle' : (n : Rat) ≤ 65536 := by exact_mod_cast hle
  have hstep : (i : Rat) / n + 1 / 65536 ≤ j / n := by
    have hij' : (i : Rat) + 1 ≤ j := by exact_mod_cast hij
    rw [le_div_iff₀ hn', add_mul, div_mul_cancel₀ _ hn'.ne']
    linarith
  have hj' : (j : Rat) / n ≤ 1 := (div_le_one hn').2 (by exact_mod_cast hj)
  have hi0 : (0 : Rat) ≤ (i : Rat) / n := by positivity
  have hj0 : (0 : Rat) ≤ (j : Rat) / n := by positivity
  have hei := (fraction_rounded hn hle (hij.le.trans hj)).error
    (fraction_between hn hle (hij.le.trans hj)).1
  have hej := (fraction_rounded hn hle hj).error (fraction_between hn hle hj).1
  rw [abs_of_nonneg hi0, abs_le] at hei
  rw [abs_of_nonneg hj0, abs_le] at hej
  linarith

end Fraction

/-! ### Lines -/

section Line

variable (h : GridAxis a b n)

include h

theorem length_rounded : Rounded (b.toRat - a.toRat) (b - a) :=
  Single.sub_rounded h.max_isFinite h.min_isFinite

theorem length_error :
    |(b - a).toRat - (b.toRat - a.toRat)| ≤ (b.toRat - a.toRat) / 2 ^ 24 + 1 / 2 ^ 150 := by
  have herror := h.length_rounded.error h.length_isFinite
  rwa [abs_of_pos (sub_pos.2 h.lt)] at herror

theorem length_pos : 0 < (b - a).toRat := by
  rcases Single.represents_sub h.min_isFinite h.max_isFinite h.lt with hrep | hlarge
  · rw [(h.length_rounded.nearest h.length_isFinite).eq hrep]
    exact sub_pos.2 h.lt
  · have herror := abs_le.1 h.length_error
    linarith

theorem offset_between (hi : i ≤ n) :
    Rounded ((b - a).toRat * (fraction n i).toRat) (offset a b n i) ∧ (offset a b n i).isFinite ∧
      0 ≤ (offset a b n i).toRat ∧ (offset a b n i).toRat ≤ (b - a).toRat := by
  obtain ⟨hfin, h0, h1⟩ := fraction_between h.pos h.le hi
  obtain ⟨hf0, hv0⟩ := Single.toRat_ofNat (n := 0) (by decide)
  have hround : Rounded _ (offset a b n i) := Single.mul_rounded h.length_isFinite hfin
  obtain ⟨hoff, -, hlo, hhi⟩ := hround.between hf0 h.length_isFinite
    (by rw [hv0, Nat.cast_zero]; exact mul_nonneg h.length_pos.le h0)
    (mul_le_of_le_one_right h.length_pos.le h1)
  rw [hv0, Nat.cast_zero] at hlo
  exact ⟨hround, hoff, hlo, hhi⟩

/-- The exact sum of a line does not pass the upper end. If the length was rounded up, it is large
enough for the fraction to make up for that. -/
theorem add_offset_le (hi : i < n) : a.toRat + (offset a b n i).toRat ≤ b.toRat := by
  obtain ⟨hround, hfin, hlo, hhi⟩ := h.offset_between hi.le
  rcases Single.represents_sub h.min_isFinite h.max_isFinite h.lt with hrep | hlarge
  · have hexact := (h.length_rounded.nearest h.length_isFinite).eq hrep
    linarith
  · obtain ⟨-, h0, -⟩ := fraction_between h.pos h.le hi.le
    have hshare : (b - a).toRat * (fraction n i).toRat ≤ (b - a).toRat * (1 - 1 / 65536) :=
      mul_le_mul_of_nonneg_left (fraction_le h.pos h.le hi) h.length_pos.le
    have hlength := (abs_le.1 h.length_error).2
    have herror := hround.error hfin
    rw [abs_of_nonneg (mul_nonneg h.length_pos.le h0), abs_le] at herror
    linarith

theorem line_rounded (hi : i < n) :
    Rounded (a.toRat + (offset a b n i).toRat) (line a b n i) := by
  rw [line_of_lt hi]
  exact Single.add_rounded h.min_isFinite (h.offset_between hi.le).2.1

/-- Every line is finite and lies between the two ends. -/
theorem line_between (hi : i ≤ n) : (line a b n i).isFinite ∧ a.toRat ≤ (line a b n i).toRat ∧
    (line a b n i).toRat ≤ b.toRat := by
  rcases Nat.lt_or_eq_of_le hi with hlt | rfl
  · obtain ⟨-, -, hlo, -⟩ := h.offset_between hi
    obtain ⟨hfin, -, hle, hge⟩ := (h.line_rounded hlt).between h.min_isFinite h.max_isFinite
      (le_add_of_nonneg_right hlo) (h.add_offset_le hlt)
    exact ⟨hfin, hle, hge⟩
  · rw [line_last]
    exact ⟨h.max_isFinite, h.lt.le, le_rfl⟩

/-- The first line is the lower end. -/
theorem line_zero : (line a b n 0).toRat = a.toRat := by
  have hfraction := fraction_zero h.pos h.le
  obtain ⟨hround, hfin, -⟩ := h.offset_between (Nat.zero_le n)
  obtain ⟨hf0, hv0⟩ := Single.toRat_ofNat (n := 0) (by decide)
  rw [hfraction, mul_zero, ← Nat.cast_zero, ← hv0] at hround
  have hline := h.line_rounded h.pos
  rw [(hround.eq hf0).2, hv0, Nat.cast_zero, add_zero] at hline
  exact (hline.eq h.min_isFinite).2

/-- The offsets are in order, and offsets of one value are one scalar or zeros. -/
theorem line_le_succ (hi : i < n) : (line a b n i).toRat ≤ (line a b n (i + 1)).toRat := by
  rcases Nat.lt_or_eq_of_le (Nat.succ_le_of_lt hi) with hlt | heq
  · have hlt' : i + 1 < n := hlt
    obtain ⟨hround, hfin, hlo, -⟩ := h.offset_between hi.le
    obtain ⟨hround', hfin', -⟩ := h.offset_between hlt'.le
    have hline := h.line_rounded hi
    have hline' := h.line_rounded hlt'
    have hfraction := fraction_lt h.pos h.le (Nat.lt_succ_self i) hlt'.le
    have hoffset := hround.le hround' hfin hfin' (mul_lt_mul_of_pos_left hfraction h.length_pos)
    rcases hoffset.lt_or_eq with hoff | hoff
    · exact hline.le hline' (h.line_between hi.le).1 (h.line_between hlt'.le).1 (by linarith)
    · by_cases h0 : (offset a b n i).toRat = 0
      · rw [h0, add_zero] at hline
        rw [← hoff, h0, add_zero] at hline'
        rw [(hline.eq h.min_isFinite).2, (hline'.eq h.min_isFinite).2]
      · rw [line_of_lt hi, line_of_lt hlt', Single.eq_of_toRat_eq hfin hfin' hoff h0]
  · rw [show i + 1 = n from heq, line_last]
    exact (h.line_between hi.le).2.2

theorem line_le (hij : i ≤ j) (hj : j ≤ n) : (line a b n i).toRat ≤ (line a b n j).toRat := by
  induction j, hij using Nat.le_induction with
  | base => exact le_rfl
  | succ j hij ih => exact (ih (by omega)).trans (h.line_le_succ hj)

/-- How far an offset is from its share of the exact length. -/
theorem abs_offset_sub (hi : i ≤ n) :
    |(offset a b n i).toRat - (b.toRat - a.toRat) * (i / n)| ≤
      7 * (b.toRat - a.toRat) / 2 ^ 25 + 3 / 2 ^ 150 := by
  have hn : (0 : Rat) < n := Nat.cast_pos.2 h.pos
  have hi0 : (0 : Rat) ≤ (i : Rat) / n := by positivity
  have hi1 : (i : Rat) / n ≤ 1 := (div_le_one hn).2 (by exact_mod_cast hi)
  have hpos := h.length_pos
  have hlength := h.length_error
  obtain ⟨hfin, h0, h1⟩ := fraction_between h.pos h.le hi
  obtain ⟨hround, hoff, -⟩ := h.offset_between hi
  have hfraction := (fraction_rounded h.pos h.le hi).error hfin
  have hoffset := hround.error hoff
  rw [abs_of_nonneg hi0] at hfraction
  rw [abs_of_nonneg (mul_nonneg hpos.le h0)] at hoffset
  have hproduct : (b - a).toRat * (fraction n i).toRat ≤ (b - a).toRat :=
    mul_le_of_le_one_right hpos.le h1
  have hscaled : |(b - a).toRat * ((fraction n i).toRat - i / n)| ≤
      (b - a).toRat * (1 / 2 ^ 24 + 1 / 2 ^ 150) := by
    rw [abs_mul, abs_of_pos hpos]
    refine mul_le_mul_of_nonneg_left ?_ hpos.le
    linarith
  have hpart : |((b - a).toRat - (b.toRat - a.toRat)) * (i / n)| ≤
      (b.toRat - a.toRat) / 2 ^ 24 + 1 / 2 ^ 150 := by
    rw [abs_mul, abs_of_nonneg hi0]
    exact (mul_le_of_le_one_right (abs_nonneg _) hi1).trans hlength
  -- the roundings of the product, of the fraction and of the length
  have hsplit : (offset a b n i).toRat - (b.toRat - a.toRat) * (i / n) =
      ((offset a b n i).toRat - (b - a).toRat * (fraction n i).toRat) +
      (b - a).toRat * ((fraction n i).toRat - i / n) +
      ((b - a).toRat - (b.toRat - a.toRat)) * (i / n) := by ring
  rw [abs_le] at hlength hoffset hscaled hpart
  rw [hsplit, abs_le]
  constructor <;> linarith

/-- How far a line is from its exact place, if no coordinate is larger than `c`. -/
theorem abs_line_sub {c : Rat} (ha : |a.toRat| ≤ c) (hb : |b.toRat| ≤ c) (hi : i ≤ n) :
    |(line a b n i).toRat - (a.toRat + (b.toRat - a.toRat) * (i / n))| ≤
      c / 2 ^ 21 + 1 / 2 ^ 148 := by
  have hc : 0 ≤ c := (abs_nonneg _).trans ha
  have hlow := (abs_le.1 ha).1
  have hhigh := (abs_le.1 hb).2
  rcases Nat.lt_or_eq_of_le hi with hlt | rfl
  · obtain ⟨-, -, hlo, -⟩ := h.offset_between hi
    have hsum := h.add_offset_le hlt
    have hsmall : |a.toRat + (offset a b n i).toRat| ≤ c := abs_le.2 ⟨by linarith, by linarith⟩
    have hline := (h.line_rounded hlt).error (h.line_between hi).1
    have hoffset := h.abs_offset_sub hi
    rw [abs_le] at hline hoffset ⊢
    constructor <;> linarith
  · have hn : (i : Rat) ≠ 0 := Nat.cast_ne_zero.2 h.pos.ne'
    rw [line_last, div_self hn, mul_one, add_sub_cancel, sub_self, abs_zero]
    positivity

/-! ### Cells -/

/-- How far the extent of a cell is from its share of the length. -/
theorem abs_cell_sub {c : Rat} (ha : |a.toRat| ≤ c) (hb : |b.toRat| ≤ c) (hi : i < n) :
    |(line a b n (i + 1)).toRat - (line a b n i).toRat - (b.toRat - a.toRat) / n| ≤
      c / 2 ^ 20 + 1 / 2 ^ 147 := by
  have hn : (n : Rat) ≠ 0 := Nat.cast_ne_zero.2 h.pos.ne'
  have hlow := h.abs_line_sub ha hb hi.le
  have hhigh := h.abs_line_sub ha hb (Nat.succ_le_of_lt hi)
  have hshare : (b.toRat - a.toRat) * (((i + 1 : Nat) : Rat) / n) =
      (b.toRat - a.toRat) * (i / n) + (b.toRat - a.toRat) / n := by
    push_cast
    field_simp
  rw [show i.succ = i + 1 from rfl, hshare] at hhigh
  rw [abs_le] at hlow hhigh ⊢
  constructor <;> linarith

/-- A cell is not much larger than its share of the rounded length. -/
theorem cell_le {c size : Rat} (ha : |a.toRat| ≤ c) (hb : |b.toRat| ≤ c)
    (hsize : (b - a).toRat ≤ n * size) (hi : i < n) :
    (line a b n (i + 1)).toRat - (line a b n i).toRat ≤ size + c / 2 ^ 19 + 1 / 2 ^ 146 := by
  have hn : (1 : Rat) ≤ n := by exact_mod_cast h.pos
  have hcell := (abs_le.1 (h.abs_cell_sub ha hb hi)).2
  have hlength := (abs_le.1 h.length_error).1
  have hlow := (abs_le.1 ha).1
  have hhigh := (abs_le.1 hb).2
  have hc : 0 ≤ c := (abs_nonneg _).trans ha
  have hshare : (b.toRat - a.toRat) / n ≤ size + (2 * c / 2 ^ 24 + 1 / 2 ^ 150) := by
    rw [div_le_iff₀ (by linarith)]
    have hslack : 2 * c / 2 ^ 24 + 1 / 2 ^ 150 ≤ (2 * c / 2 ^ 24 + 1 / 2 ^ 150) * n :=
      le_mul_of_one_le_right (by positivity) hn
    linarith
  linarith

/-- Every coordinate of the interval lies in a cell. -/
theorem exists_cell {K : Type} [Field K] [LinearOrder K] [IsStrictOrderedRing K] {t : K}
    (hlo : (a.toRat : K) ≤ t) (hhi : t ≤ (b.toRat : K)) :
    ∃ i < n, ((line a b n i).toRat : K) ≤ t ∧ t ≤ ((line a b n (i + 1)).toRat : K) := by
  -- the first line that is not below the coordinate ends the cell
  have hlast : ∃ k, 0 < k ∧ t ≤ ((line a b n k).toRat : K) := ⟨n, h.pos, by rwa [line_last]⟩
  classical
  obtain ⟨hpos, hle⟩ := Nat.find_spec hlast
  have hfirst : Nat.find hlast ≤ n := Nat.find_min' hlast ⟨h.pos, by rwa [line_last]⟩
  obtain ⟨i, hi⟩ := Nat.exists_eq_succ_of_ne_zero hpos.ne'
  rw [hi] at hle hfirst
  refine ⟨i, hfirst, ?_, hle⟩
  rcases Nat.eq_zero_or_pos i with rfl | hipos
  · rwa [h.line_zero]
  · have hmin := Nat.find_min hlast (show i < Nat.find hlast by omega)
    exact (not_le.1 fun hbelow => hmin ⟨hipos, hbelow⟩).le

end Line

end GridAxis

/-! ### Counts -/

namespace Single

/-- A quotient of scalars that passes a positive integer passes it by more than the rounding of the
quotient could hide. -/
theorem add_le_div {x y : Single} (hx : x.isFinite) (hy : y.isFinite) (hpos : 0 < y.toRat) {n : Nat}
    (hn : 0 < n) (hlt : n < x.toRat / y.toRat) : n + 1 / 2 ^ 24 ≤ x.toRat / y.toRat := by
  obtain ⟨k, e, -, hk, hxe⟩ := represents_toRat hx
  obtain ⟨l, d, -, hl, hyd⟩ := represents_toRat hy
  rw [lt_div_iff₀ hpos] at hlt
  rw [le_div_iff₀ hpos]
  have hn' : (1 : Rat) ≤ n := by exact_mod_cast hn
  have hbelow : ∀ {z : Int} {c : Int}, |z| < 2 ^ Format.binary32.precision →
      (z : Rat) * 2 ^ c ≤ 2 ^ 24 * 2 ^ c := by
    intro z c hz
    have hz' : (z : Rat) ≤ 2 ^ 24 := by exact_mod_cast (le_abs_self z).trans hz.le
    gcongr
  -- in multiples of the smaller of the two units, the difference is a positive integer
  obtain ⟨u, hu⟩ : ∃ u : Rat, u = 2 ^ min e d := ⟨_, rfl⟩
  have hunit : (0 : Rat) < u := by rw [hu]; positivity
  have hx' : ∃ K : Int, x.toRat = K * u := by
    obtain ⟨j, hj⟩ := Int.le.dest (min_le_left e d)
    refine ⟨k * 2 ^ j, ?_⟩
    rw [hxe, ← hj, hu, zpow_add₀ two_ne_zero, zpow_natCast]
    push_cast
    ring
  have hy' : ∃ L : Int, y.toRat = L * u := by
    obtain ⟨j, hj⟩ := Int.le.dest (min_le_right e d)
    refine ⟨l * 2 ^ j, ?_⟩
    rw [hyd, ← hj, hu, zpow_add₀ two_ne_zero, zpow_natCast]
    push_cast
    ring
  obtain ⟨K, hK⟩ := hx'
  obtain ⟨L, hL⟩ := hy'
  have hstep : n * y.toRat + u ≤ x.toRat := by
    have hint : (n : Rat) * L < K := by
      rw [hK, hL, ← mul_assoc] at hlt
      exact lt_of_mul_lt_mul_right hlt hunit.le
    have hint' : (n : Int) * L + 1 ≤ K := by exact_mod_cast hint
    have hint'' : (n : Rat) * L + 1 ≤ K := by exact_mod_cast hint'
    have := mul_le_mul_of_nonneg_right hint'' hunit.le
    rw [hK, hL]
    linarith
  have hsmall : y.toRat ≤ 2 ^ 24 * u := by
    rcases le_total e d with hed | hde
    · have hyx : y.toRat ≤ x.toRat := (le_mul_of_one_le_left hpos.le hn').trans hlt.le
      rw [hu, min_eq_left hed]
      exact hyx.trans (hxe.trans_le (hbelow hk))
    · rw [hu, min_eq_right hde]
      exact hyd.trans_le (hbelow hl)
  linarith

end Single

namespace BrickLayout

variable {length largest : Single} {n : Nat}

theorem cellsAlong_pos (h : cellsAlong length largest = some n) : 0 < n := by
  unfold cellsAlong at h
  split at h
  · cases h
    exact Nat.one_pos
  · split at h
    · cases h
      exact Nat.one_pos
    · cases h
  · cases h
    exact Nat.lt_of_lt_of_le Nat.one_pos (Nat.le_max_left _ _)

/-- No number of cells covers an infinite length. -/
theorem cellsAlong_infinity (hfin : largest.isFinite) (hpos : 0 < largest.toRat) :
    cellsAlong Single.infinity largest = none := by
  obtain ⟨s, m, e, hdecode, -⟩ := Single.decode_of_isFinite hfin
  have hs : s = false := by
    rw [Single.toRat, hdecode, Format.toRat_finite] at hpos
    cases s with
    | false => rfl
    | true =>
      have hneg : (Format.signed true m : Rat) * 2 ^ e ≤ 0 :=
        mul_nonpos_of_nonpos_of_nonneg (by simp [Format.signed]) (by positivity)
      exact absurd hpos (not_lt.2 hneg)
  have hinf : Single.infinity.decode = .infinite false := by decide
  unfold cellsAlong
  rw [hdecode, hinf, hs]
  rfl

/-- The number of cells is large enough for the exact lengths, although it is the ceiling of a rounded
quotient. -/
theorem cellsAlong_ok (hl : length.isFinite) (h0 : 0 ≤ length.toRat) (hfin : largest.isFinite)
    (hpos : 0 < largest.toRat) (h : cellsAlong length largest = some n) (hn : n ≤ 65536) :
    length.toRat ≤ n * largest.toRat := by
  have hnpos := cellsAlong_pos h
  obtain ⟨s, m, e, hdl, -⟩ := Single.decode_of_isFinite hl
  obtain ⟨t, k, d, hdm, -⟩ := Single.decode_of_isFinite hfin
  have hk : 0 < k := by
    rw [Single.toRat, hdm, Format.toRat_finite] at hpos
    refine Nat.pos_of_ne_zero fun hzero => ?_
    rw [hzero] at hpos
    cases t <;> simp [Format.signed] at hpos
  have hround := Format.div_rounded (f := .binary64) (by decide) (by decide) s t m hk e d
  rw [← hdl, ← hdm] at hround
  change Format.binary64.Rounded (length.toRat / largest.toRat) _ at hround
  have hq0 : 0 ≤ length.toRat / largest.toRat := by positivity
  have hlimit := Format.binary64.limit_pos
  unfold cellsAlong at h
  generalize Format.binary64.div length.decode largest.decode = quotient at h hround
  cases hround with
  | @infinite s hinf =>
    cases s
    · cases h
    · simp only [if_true] at hinf
      linarith
  | @finite s m e hfits hnear =>
    simp only [Option.some.injEq, Datum.ceil_finite] at h
    have hceil : (Datum.finite s m e).toRat ≤ n := by
      have hle : ⌈(Datum.finite s m e).toRat⌉ ≤ (n : Int) := by omega
      exact_mod_cast Int.ceil_le.1 hle
    by_contra hlt
    rw [not_le, ← lt_div_iff₀ hpos] at hlt
    have hgap := Single.add_le_div hl hfin hpos hnpos hlt
    have hn' : (n : Rat) ≤ 65536 := by exact_mod_cast hn
    have htiny : (2 : Rat) ^ (Format.binary64.minExponent - 1) ≤ 1 / 2 ^ 150 := by
      rw [show (1 / 2 ^ 150 : Rat) = 2 ^ (-150 : Int) by rw [zpow_neg, one_div]; rfl]
      exact zpow_le_zpow_right₀ one_le_two (by decide)
    have herror := (abs_le.1 hnear.error).1
    rw [abs_of_nonneg hq0, show Format.binary64.precision = 53 from rfl] at herror
    linarith

end BrickLayout
end SortLast
