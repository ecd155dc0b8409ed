import Mathlib.Tactic
import SortLast.Scalar.Single

/-!
# The order of single-precision scalars

Scalars are compared by the keys of their bit patterns. For finite scalars that is the order of the
exact values.

* `Single.units`: the value of a magnitude, as a multiple of the smallest positive scalar.
* `Single.toRat_eq`: the exact value of a finite scalar is its signed units over `2 ^ 149`.
* `Single.toRat_le_toRat_iff`, `Single.toRat_lt_toRat_iff`: keys and exact values are ordered alike.
-/

namespace SortLast
namespace Single

/-! ### Magnitudes -/

/-- The value of the bits without the sign, in multiples of `2 ^ -149`. -/
def units (m : Nat) : Nat :=
  if m / 0x800000 = 0 then m else (0x800000 + m % 0x800000) * 2 ^ (m / 0x800000 - 1)

/-- The next magnitude has a larger value, also where the exponent changes. -/
theorem units_lt_succ (m : Nat) : units m < units (m + 1) := by
  unfold units
  rcases Nat.lt_or_ge (m % 0x800000 + 1) 0x800000 with hf | hf
  · have he : (m + 1) / 0x800000 = m / 0x800000 := by omega
    have hr : (m + 1) % 0x800000 = m % 0x800000 + 1 := by omega
    rw [he, hr]
    split
    · exact Nat.lt_succ_self m
    · exact Nat.mul_lt_mul_of_pos_right (by omega) (Nat.two_pow_pos _)
  · have he : (m + 1) / 0x800000 = m / 0x800000 + 1 := by omega
    have hr : (m + 1) % 0x800000 = 0 := by omega
    have hm : m % 0x800000 = 0x7fffff := by omega
    rw [he, hr, hm, if_neg (Nat.succ_ne_zero _), Nat.add_sub_cancel, Nat.add_zero]
    by_cases h0 : m / 0x800000 = 0
    · rw [if_pos h0, h0]
      omega
    · obtain ⟨e, he⟩ := Nat.exists_eq_succ_of_ne_zero h0
      rw [if_neg h0, he, Nat.succ_sub_one, Nat.pow_succ, Nat.mul_comm (2 ^ e), ← Nat.mul_assoc]
      exact Nat.mul_lt_mul_of_pos_right (by omega) (Nat.two_pow_pos _)

theorem units_strictMono : StrictMono units := strictMono_nat_of_lt_succ units_lt_succ

/-! ### Values -/

/-- The position on the number line, in multiples of `2 ^ -149`. -/
def signedUnits (x : Single) : Int := Format.signed x.signBit (units x.magnitude)

/-- A shift to the left or to the right, over a denominator that leaves room for both. -/
theorem toRat_finite_natCast (s : Bool) (m k : Nat) :
    (Datum.finite s m ((k : Int) - 149)).toRat = (Format.signed s (m * 2 ^ k) : Rat) / 2 ^ 149 := by
  simp only [Datum.toRat, Format.scaled, Rat.mkRat_eq_div, Nat.shiftLeft_eq]
  rcases Nat.le_total 149 k with hk | hk
  · have h1 : ((k : Int) - 149).toNat = k - 149 := by omega
    have h2 : (-((k : Int) - 149)).toNat = 0 := by omega
    obtain ⟨d, rfl⟩ := Nat.exists_eq_add_of_le hk
    rw [h1, h2, Nat.add_sub_cancel_left, Nat.pow_add]
    cases s <;> simp [Format.signed] <;> ring
  · have h1 : ((k : Int) - 149).toNat = 0 := by omega
    have h2 : (-((k : Int) - 149)).toNat = 149 - k := by omega
    obtain ⟨d, hd⟩ := Nat.exists_eq_add_of_le hk
    have h3 : 149 - k = d := by omega
    rw [h1, h2, h3, hd, pow_add]
    cases s <;> simp [Format.signed] <;> field_simp

/-- The exact value of a finite scalar. -/
theorem toRat_eq {x : Single} (hx : x.isFinite) : x.toRat = (x.signedUnits : Rat) / 2 ^ 149 := by
  have hlt : x.magnitude < 0x7f800000 := of_decide_eq_true hx
  have hnan : x.isNaN = false := decide_eq_false (by omega)
  have hexp : x.magnitude / 0x800000 ≠ 255 := by omega
  unfold toRat decode signedUnits units
  simp only [hnan, hexp, if_false, Bool.false_eq_true]
  split
  · rename_i h0
    have hm : x.magnitude % 0x800000 = x.magnitude := by omega
    rw [hm]
    simpa using toRat_finite_natCast x.signBit x.magnitude 0
  · rename_i h0
    have he : ((x.magnitude / 0x800000 : Nat) : Int) - 150 =
        ((x.magnitude / 0x800000 - 1 : Nat) : Int) - 149 := by omega
    rw [he]
    exact toRat_finite_natCast _ _ _

/-! ### Order -/

/-- Keys and units are ordered alike. -/
theorem signedUnits_lt_iff (a b : Single) : a.signedUnits < b.signedUnits ↔ a.key < b.key := by
  have hlt := units_strictMono.lt_iff_lt (a := a.magnitude) (b := b.magnitude)
  have hgt := units_strictMono.lt_iff_lt (a := b.magnitude) (b := a.magnitude)
  have h0 : units 0 = 0 := rfl
  have ha := units_strictMono.lt_iff_lt (a := 0) (b := a.magnitude)
  have hb := units_strictMono.lt_iff_lt (a := 0) (b := b.magnitude)
  rw [h0] at ha hb
  unfold signedUnits key Format.signed
  cases a.signBit <;> cases b.signBit <;> simp <;> omega

theorem toRat_lt_toRat_iff {a b : Single} (ha : a.isFinite) (hb : b.isFinite) :
    a.toRat < b.toRat ↔ a.key < b.key := by
  rw [toRat_eq ha, toRat_eq hb, div_lt_div_iff_of_pos_right (by positivity), Int.cast_lt,
    signedUnits_lt_iff]

theorem toRat_le_toRat_iff {a b : Single} (ha : a.isFinite) (hb : b.isFinite) :
    a.toRat ≤ b.toRat ↔ a.key ≤ b.key := by
  rw [← not_lt, ← not_lt, toRat_lt_toRat_iff hb ha]

theorem not_isNaN {a : Single} (ha : a.isFinite) : a.isNaN = false := by
  have hlt : a.magnitude < 0x7f800000 := of_decide_eq_true ha
  exact decide_eq_false (by omega)

theorem le_iff {a b : Single} : a ≤ b ↔ a.isNaN = false ∧ b.isNaN = false ∧ a.key ≤ b.key := by
  show (!a.isNaN && !b.isNaN && decide (a.key ≤ b.key)) = true ↔ _
  simp [and_assoc]

theorem lt_iff {a b : Single} : a < b ↔ a.isNaN = false ∧ b.isNaN = false ∧ a.key < b.key := by
  show (!a.isNaN && !b.isNaN && decide (a.key < b.key)) = true ↔ _
  simp [and_assoc]

theorem le_refl {a : Single} (ha : a.isNaN = false) : a ≤ a := le_iff.2 ⟨ha, ha, Int.le_refl _⟩

theorem le_trans {a b c : Single} (hab : a ≤ b) (hbc : b ≤ c) : a ≤ c := by
  rw [le_iff] at *
  exact ⟨hab.1, hbc.2.1, hab.2.2.trans hbc.2.2⟩

theorem lt_of_lt_of_le {a b c : Single} (hab : a < b) (hbc : b ≤ c) : a < c := by
  rw [lt_iff] at *
  rw [le_iff] at hbc
  exact ⟨hab.1, hbc.2.1, hab.2.2.trans_le hbc.2.2⟩

theorem lt_of_le_of_lt {a b c : Single} (hab : a ≤ b) (hbc : b < c) : a < c := by
  rw [le_iff] at hab
  rw [lt_iff] at *
  exact ⟨hab.1, hbc.2.1, hab.2.2.trans_lt hbc.2.2⟩

theorem le_of_lt {a b : Single} (hab : a < b) : a ≤ b := by
  rw [lt_iff] at hab
  rw [le_iff]
  exact ⟨hab.1, hab.2.1, hab.2.2.le⟩

/-- Any two numbers can be compared, infinities among them. -/
theorem le_or_le {a b : Single} (ha : a.isNaN = false) (hb : b.isNaN = false) : a ≤ b ∨ b ≤ a := by
  rw [le_iff, le_iff]
  exact (Int.le_total a.key b.key).imp (fun h => ⟨ha, hb, h⟩) (fun h => ⟨hb, ha, h⟩)

theorem not_le_iff {a b : Single} (ha : a.isNaN = false) (hb : b.isNaN = false) :
    ¬ a ≤ b ↔ b < a := by
  simp [le_iff, lt_iff, ha, hb]

theorem not_le_of_lt {a b : Single} (h : a < b) : ¬ b ≤ a := by
  rw [lt_iff] at h
  rw [le_iff]
  omega

theorem le_infinity {a : Single} (ha : a.isNaN = false) : a ≤ infinity := by
  have hle : ¬ 0x7f800000 < a.magnitude := of_decide_eq_false ha
  have hkey : infinity.key = 0x7f800000 := rfl
  refine le_iff.2 ⟨ha, rfl, ?_⟩
  rw [hkey, key]
  split <;> omega

theorem negInfinity_le {a : Single} (ha : a.isNaN = false) : negInfinity ≤ a := by
  have hle : ¬ 0x7f800000 < a.magnitude := of_decide_eq_false ha
  have hkey : negInfinity.key = -0x7f800000 := rfl
  refine le_iff.2 ⟨rfl, ha, ?_⟩
  rw [hkey, key]
  split <;> omega

theorem sameValue_comm (a b : Single) : a.sameValue b = b.sameValue a := by
  simp only [sameValue, Bool.and_comm (!a.isNaN), eq_comm]

/-- An operand that is not a number is ignored. -/
theorem min_isNaN {a b : Single} (hb : b.isNaN = false) : (a.min b).isNaN = false := by
  unfold Single.min
  split
  · exact hb
  · rename_i ha
    split
    · rename_i h
      rw [hb] at h
      cases h
    · split
      · exact hb
      · exact Bool.eq_false_iff.2 ha

/-- Finite scalars are compared as their exact values. -/
theorem le_iff_toRat_le {a b : Single} (ha : a.isFinite) (hb : b.isFinite) :
    a ≤ b ↔ a.toRat ≤ b.toRat := by
  simp [toRat_le_toRat_iff ha hb, le_iff, not_isNaN ha, not_isNaN hb]

theorem lt_iff_toRat_lt {a b : Single} (ha : a.isFinite) (hb : b.isFinite) :
    a < b ↔ a.toRat < b.toRat := by
  simp [toRat_lt_toRat_iff ha hb, lt_iff, not_isNaN ha, not_isNaN hb]

end Single
end SortLast
