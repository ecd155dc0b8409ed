import Mathlib.Tactic
import SortLast.Text.Integer
import SortLast.Text.Words

/-!
# Cutting and reading what was put together

What trimming, splitting and reading make of a text whose parts are known.

* `Text.trim_append`: a text that ends in visible characters is trimmed at its front only.
* `Text.splitFirst_eq_some_iff`, `Text.splitLast_append`: the first separator is the one with none in
  front of it, the last one that with none behind it.
* `Text.Numeral`, `Text.parseNat_eq_ok_iff`: exactly the numerals are read as numbers, and
  `Text.parseNat_toDigits` says that the digits of a number are one.
-/

namespace SortLast.Text

/-! ### Cutting -/

/-- Digits are visible. -/
theorem isBlank_of_isDigit {c : Char} (h : c.isDigit) : isBlank c = false := by
  have hrange : 48 ≤ c.toNat ∧ c.toNat ≤ 57 := by
    simpa [Char.isDigit, UInt32.le_iff_toNat_le] using h
  simp only [isBlank, blankRanges, List.any_cons, List.any_nil, Bool.or_false, Bool.or_eq_false_iff,
    decide_eq_false_iff_not]
  omega

/-- White space is dropped up to the first visible character. -/
theorem dropWhile_isBlank_append {c : Char} (hc : isBlank c = false) (front back : List Char) :
    (front ++ c :: back).dropWhile isBlank = front.dropWhile isBlank ++ c :: back := by
  induction front with
  | nil => exact List.dropWhile_cons_of_neg (by rw [hc]; exact Bool.false_ne_true)
  | cons b front ih =>
    rw [List.cons_append]
    by_cases hb : isBlank b
    · rw [List.dropWhile_cons_of_pos hb, List.dropWhile_cons_of_pos hb, ih]
    · rw [List.dropWhile_cons_of_neg hb, List.dropWhile_cons_of_neg hb, List.cons_append]

/-- No white space is dropped from a text that begins with a visible character. -/
theorem dropWhile_isBlank_eq_self_iff {cs : List Char} :
    cs.dropWhile isBlank = cs ↔ ∀ c ∈ cs.head?, isBlank c = false := by
  cases cs with
  | nil => simp
  | cons c cs =>
    simp only [List.head?_cons, Option.mem_def, Option.some.injEq, forall_eq']
    constructor
    · intro h
      refine Bool.eq_false_iff.2 fun hc => ?_
      have hle := (List.dropWhile_suffix (l := cs) isBlank).length_le
      rw [List.dropWhile_cons_of_pos hc] at h
      rw [h, List.length_cons] at hle
      omega
    · intro hc
      exact List.dropWhile_cons_of_neg (by rw [hc]; exact Bool.false_ne_true)

/-- Behind a visible character, a text without white space is not trimmed. -/
theorem trim_append {c : Char} (hc : isBlank c = false) (front : List Char) {back : List Char}
    (hback : ∀ d ∈ back, isBlank d = false) :
    trim (front ++ c :: back) = front.dropWhile isBlank ++ c :: back := by
  have hlast : ∀ d ∈ (front.dropWhile isBlank ++ c :: back).reverse.head?, isBlank d = false := by
    rw [List.head?_reverse, List.getLast?_append_of_ne_nil _ (List.cons_ne_nil c back)]
    intro d hd
    rcases List.mem_cons.1 (List.mem_of_getLast? hd) with rfl | hmem
    · exact hc
    · exact hback d hmem
  rw [trim, dropWhile_isBlank_append hc, dropWhile_isBlank_eq_self_iff.2 hlast, List.reverse_reverse]

theorem splitFirst_append {separator : Char} {front : List Char} (h : separator ∉ front)
    (back : List Char) : splitFirst separator (front ++ separator :: back) = some (front, back) := by
  induction front with
  | nil => exact if_pos rfl
  | cons c front ih =>
    rw [List.mem_cons, not_or] at h
    rw [List.cons_append, splitFirst, if_neg (Ne.symm h.1), ih h.2]
    rfl

/-- The parts around the first separator: there is none in front of it. -/
theorem splitFirst_eq_some_iff {separator : Char} {cs front back : List Char} :
    splitFirst separator cs = some (front, back) ↔
      separator ∉ front ∧ cs = front ++ separator :: back := by
  constructor
  · intro h
    induction cs generalizing front with
    | nil => cases h
    | cons c cs ih =>
      rw [splitFirst] at h
      split at h
      · rename_i hc
        cases h
        exact ⟨List.not_mem_nil, by rw [hc]; rfl⟩
      · rename_i hc
        obtain ⟨⟨before, after⟩, hrest, heq⟩ := Option.map_eq_some_iff.1 h
        cases heq
        obtain ⟨hbefore, rfl⟩ := ih hrest
        refine ⟨?_, rfl⟩
        rw [List.mem_cons, not_or]
        exact ⟨Ne.symm hc, hbefore⟩
  · rintro ⟨hfront, rfl⟩
    exact splitFirst_append hfront back

theorem splitFirst_eq_none_iff {separator : Char} {cs : List Char} :
    splitFirst separator cs = none ↔ separator ∉ cs := by
  constructor
  · intro h hmem
    obtain ⟨front, back, rfl, hfront⟩ := List.eq_append_cons_of_mem hmem
    rw [splitFirst_append hfront] at h
    cases h
  · intro hmem
    refine Option.eq_none_iff_forall_not_mem.2 fun ⟨front, back⟩ h => hmem ?_
    obtain ⟨-, rfl⟩ := splitFirst_eq_some_iff.1 h
    exact List.mem_append_right front List.mem_cons_self

/-- The parts between all separators are those of the library's function. -/
theorem splitAll_eq_splitOn (separator : Char) (cs : List Char) :
    splitAll separator cs = cs.splitOn separator := by
  induction cs with
  | nil => rfl
  | cons c cs ih =>
    simp only [splitAll, List.splitOn_cons_eq_if_modifyHead, ih, beq_iff_eq]
    rcases hparts : cs.splitOn separator with _ | ⟨part, parts⟩
    · exact absurd hparts (List.splitOn_ne_nil separator cs)
    · rfl

theorem splitLast_append {separator : Char} {back : List Char} (h : separator ∉ back)
    (front : List Char) : splitLast separator (front ++ separator :: back) = some (front, back) := by
  have hreverse : (front ++ separator :: back).reverse =
      back.reverse ++ separator :: front.reverse := by
    rw [List.reverse_append, List.reverse_cons, List.append_assoc, List.singleton_append]
  have hmem : separator ∉ back.reverse := by rwa [List.mem_reverse]
  rw [splitLast, hreverse, splitFirst_append hmem, Option.map_some]
  simp only [List.reverse_reverse]

/-! ### Numbers -/

section Numbers

variable {limit n : Nat} {cs : List Char}

/-- A numeral of a value below a limit: decimal digits, one at least, and perhaps a plus sign. -/
def Numeral (limit : Nat) (cs : List Char) (n : Nat) : Prop :=
  ∃ digits : List Char, (cs = digits ∨ cs = '+' :: digits) ∧ digits ≠ [] ∧
    (∀ c ∈ digits, c.isDigit) ∧ Nat.ofDigitChars 10 digits 0 = n ∧ n < limit

/-- More digits make no smaller number. -/
theorem le_ofDigitChars (n : Nat) (cs : List Char) : n ≤ Nat.ofDigitChars 10 cs n := by
  induction cs generalizing n with
  | nil => exact Nat.le_refl n
  | cons c cs ih =>
    rw [Nat.ofDigitChars_cons]
    exact Nat.le_trans (by omega) (ih _)

/-- Digits are read as their value. The limit is checked after each of them, which comes to the same as
checking the last value, since values only grow. -/
theorem digitsFrom_eq_ok_iff {m : Nat} : digitsFrom limit n cs = .ok m ↔
    (∀ c ∈ cs, c.isDigit) ∧ Nat.ofDigitChars 10 cs n = m ∧ (cs = [] ∨ m < limit) := by
  induction cs generalizing n with
  | nil => simp [digitsFrom]
  | cons c cs ih =>
    rw [digitsFrom, List.forall_mem_cons, Nat.ofDigitChars_cons]
    cases hc : c.isDigit with
    | false => simp
    | true =>
      have hle := le_ofDigitChars (10 * n + (c.toNat - '0'.toNat)) cs
      simp only [Bool.not_true, Bool.false_eq_true, if_false, true_and, reduceCtorEq, false_or]
      rcases Nat.lt_or_ge (10 * n + (c.toNat - '0'.toNat)) limit with hlt | hge
      · rw [if_neg (Nat.not_le.2 hlt), ih]
        refine and_congr_right fun _ => and_congr_right fun hvalue => or_iff_right_of_imp ?_
        rintro rfl
        exact hvalue ▸ hlt
      · rw [if_pos hge]
        exact iff_of_false (by simp) fun h => by omega

/-- What is read as a number are the numerals of that number. -/
theorem parseNat_eq_ok_iff : parseNat limit cs = .ok n ↔ Numeral limit cs n := by
  have hsign : ∀ rest, ¬ ∀ c ∈ '+' :: rest, c.isDigit := fun rest hd =>
    absurd (hd '+' List.mem_cons_self) (by decide)
  -- the digits that are read, which a sign alone does not have
  have hread : ∀ digits, digits ≠ [] → (digitsFrom limit 0 digits = .ok n ↔
      (∀ c ∈ digits, c.isDigit) ∧ Nat.ofDigitChars 10 digits 0 = n ∧ n < limit) := by
    intro digits hne
    rw [digitsFrom_eq_ok_iff, or_iff_right hne]
  rcases cs with _ | ⟨c, rest⟩
  · simp [parseNat, Numeral]
  · by_cases hc : c = '+'
    · subst hc
      have hnumeral : Numeral limit ('+' :: rest) n ↔ rest ≠ [] ∧ (∀ c ∈ rest, c.isDigit) ∧
          Nat.ofDigitChars 10 rest 0 = n ∧ n < limit := by
        constructor
        · rintro ⟨digits, rfl | h, hne, hd, hvalue⟩
          · exact absurd hd (hsign rest)
          · cases h
            exact ⟨hne, hd, hvalue⟩
        · exact fun h => ⟨rest, .inr rfl, h⟩
      rw [hnumeral]
      rcases rest with _ | ⟨d, rest⟩
      · simp [parseNat]
      · rw [← hread _ (List.cons_ne_nil d rest)]
        exact (and_iff_right (List.cons_ne_nil d rest)).symm
    · have hparse : parseNat limit (c :: rest) = digitsFrom limit 0 (c :: rest) := by
        unfold parseNat
        split <;> simp_all
      rw [hparse, hread _ (List.cons_ne_nil c rest)]
      constructor
      · exact fun h => ⟨c :: rest, .inl rfl, List.cons_ne_nil c rest, h⟩
      · rintro ⟨digits, rfl | h, -, hdigits⟩
        · exact hdigits
        · cases h
          exact absurd rfl hc

theorem parseNat_lt (h : parseNat limit cs = .ok n) : n < limit := by
  obtain ⟨digits, -, -, -, -, hlt⟩ := parseNat_eq_ok_iff.1 h
  exact hlt

/-- The digits of a number are a numeral of it. -/
theorem parseNat_toDigits (h : n < limit) : parseNat limit (Nat.toDigits 10 n) = .ok n :=
  parseNat_eq_ok_iff.2 ⟨Nat.toDigits 10 n, .inl rfl, Nat.toDigits_ne_nil,
    fun _ hc => Nat.isDigit_of_mem_toDigits (by decide) (by decide) hc,
    Nat.ofDigitChars_toDigits (by decide) (by decide), h⟩

end Numbers

end SortLast.Text
