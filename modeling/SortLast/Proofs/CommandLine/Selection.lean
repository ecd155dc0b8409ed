import SortLast.CommandLine.Capture
import SortLast.Proofs.Text

/-!
# The grammar of frame selections

A selection is a list of parts between commas, and a part is a frame or two of them around its first
hyphen. What is read of a text are the frames that its parts name by this grammar and that are below
the number of frames. Nothing else of the text counts: not the order of the parts, not how often they
stand there, and not the parts that name no frame.

* `FrameSet.parts`, `FrameSet.Names`: the parts of a text, and the frames that a part names.
* `FrameSet.toList_pairwise`, `FrameSet.mem_toList`: the sorted frames of a set.
* `FrameSet.contains_parse`: the frames that are read.
* `FrameSet.parse_exact`: all of this, and that selections with the same meaningful parts are equal.
-/

namespace SortLast
namespace FrameSet

variable {s t : FrameSet} {part : List Char} {r : FrameRange} {n f : Nat}

/-! ### Sorted frames -/

/-- What was kept before a run of equal frames stays in front. -/
theorem eraseReps_loop (a : Nat) (l kept : List Nat) :
    List.eraseRepsBy.loop (· == ·) a l kept = kept.reverse ++ (a :: l).eraseReps := by
  induction l generalizing a kept with
  | nil => simp [List.eraseReps, List.eraseRepsBy, List.eraseRepsBy.loop]
  | cons b l ih =>
    rw [List.eraseReps, List.eraseRepsBy, List.eraseRepsBy.loop, List.eraseRepsBy.loop]
    cases a == b <;> simp [ih]

theorem eraseReps_cons_cons (a b : Nat) (l : List Nat) : (a :: b :: l).eraseReps =
    if a = b then (b :: l).eraseReps else a :: (b :: l).eraseReps := by
  rw [List.eraseReps, List.eraseRepsBy, List.eraseRepsBy.loop]
  by_cases hab : a = b
  · simp [hab, eraseReps_loop]
  · rw [beq_false_of_ne hab, if_neg hab]
    exact eraseReps_loop b l [a]

theorem mem_eraseReps {l : List Nat} : f ∈ l.eraseReps ↔ f ∈ l := by
  induction l with
  | nil => rfl
  | cons a l ih =>
    cases l with
    | nil => rfl
    | cons b l =>
      rw [eraseReps_cons_cons, List.mem_cons, ← ih]
      split
      · rename_i hab
        simp [ih, hab]
      · rw [List.mem_cons]

theorem eraseReps_pairwise {l : List Nat} (h : l.Pairwise (· ≤ ·)) :
    l.eraseReps.Pairwise (· < ·) := by
  induction l with
  | nil => exact List.Pairwise.nil
  | cons a l ih =>
    cases l with
    | nil => exact List.pairwise_singleton _ a
    | cons b l =>
      rw [eraseReps_cons_cons]
      split
      · exact ih h.of_cons
      · rename_i hab
        refine List.pairwise_cons.2 ⟨fun c hc => ?_, ih h.of_cons⟩
        rw [mem_eraseReps] at hc
        have hle := List.rel_of_pairwise_cons h List.mem_cons_self
        rcases List.mem_cons.1 hc with rfl | hrest
        · omega
        · have hbc := List.rel_of_pairwise_cons h.of_cons hrest
          omega

theorem toList_pairwise (s : FrameSet) : s.toList.Pairwise (· < ·) := by
  refine eraseReps_pairwise ((List.pairwise_mergeSort (fun a b c hab hbc => ?_) (fun a b => ?_) _).imp
    of_decide_eq_true)
  · exact decide_eq_true ((of_decide_eq_true hab).trans (of_decide_eq_true hbc))
  · rw [Bool.or_eq_true, decide_eq_true_eq, decide_eq_true_eq]
    exact Nat.le_total a b

theorem contains_iff : s.contains f ↔ ∃ r ∈ s.ranges, r.first ≤ f ∧ f ≤ r.last := by
  simp [contains, FrameRange.contains]

theorem mem_toList : f ∈ s.toList ↔ s.contains f := by
  rw [toList, mem_eraseReps, List.mem_mergeSort, List.mem_flatMap, contains_iff]
  refine exists_congr fun r => and_congr_right fun _ => ?_
  rw [List.mem_range'_1]
  omega

/-- A set is known by its frames. -/
theorem toList_congr (h : ∀ f, s.contains f ↔ t.contains f) : s.toList = t.toList :=
  (toList_pairwise s).eq_of_mem_iff (toList_pairwise t) fun f => by rw [mem_toList, mem_toList, h]

/-! ### Parts -/

/-- The parts of a selection, between commas and without the white space around them. -/
def parts (text : String) : List (List Char) := (text.toList.splitOn ',').map Text.trim

/-- The frames that a part names. A sign belongs to a number, and a hyphen behind the first one belongs
to the last number, which then is none. -/
inductive Names : List Char → Nat → Prop where
  | frame {part : List Char} {f : Nat} : '-' ∉ part → Text.Numeral numberLimit part f → Names part f
  | range {front back : List Char} {first last f : Nat} : '-' ∉ front →
      Text.Numeral numberLimit front first → Text.Numeral numberLimit back last →
      first ≤ f → f ≤ last → Names (front ++ '-' :: back) f

/-- What is read of a part is the range of frames that it names. -/
theorem names_iff : Names part f ↔ ∃ r, parsePart part = some r ∧ r.first ≤ f ∧ f ≤ r.last := by
  constructor
  · rintro (⟨hhyphen, hframe⟩ | ⟨hhyphen, hfirst, hlast, hle, hge⟩)
    · refine ⟨⟨f, f⟩, ?_, le_rfl, le_rfl⟩
      rw [parsePart, Text.splitFirst_eq_none_iff.2 hhyphen]
      simp only [Text.parseNat_eq_ok_iff.2 hframe]
    · rename_i front back first last
      refine ⟨⟨first, last⟩, ?_, hle, hge⟩
      rw [parsePart, Text.splitFirst_append hhyphen]
      simp only [Text.parseNat_eq_ok_iff.2 hfirst, Text.parseNat_eq_ok_iff.2 hlast]
  · rintro ⟨r, hr, hle, hge⟩
    unfold parsePart at hr
    split at hr
    · rename_i front back hsplit
      obtain ⟨hhyphen, rfl⟩ := Text.splitFirst_eq_some_iff.1 hsplit
      split at hr
      · rename_i first last hfirst hlast
        cases hr
        exact .range hhyphen (Text.parseNat_eq_ok_iff.1 hfirst) (Text.parseNat_eq_ok_iff.1 hlast) hle hge
      · cases hr
    · rename_i hsplit
      split at hr
      · rename_i frame hframe
        cases hr
        obtain rfl : frame = f := le_antisymm hle hge
        exact .frame (Text.splitFirst_eq_none_iff.1 hsplit) (Text.parseNat_eq_ok_iff.1 hframe)
      · cases hr

instance (part : List Char) (f : Nat) : Decidable (Names part f) :=
  decidable_of_iff ((parsePart part).any fun r => decide (r.first ≤ f ∧ f ≤ r.last)) (by
    rw [names_iff, Option.any_eq_true]
    simp)

/-! ### Selections -/

/-- Of a range, the frames below a number of frames are kept. -/
theorem contains_cut : (∃ kept, cut n r = some kept ∧ kept.first ≤ f ∧ f ≤ kept.last) ↔
    f < n ∧ r.first ≤ f ∧ f ≤ r.last := by
  unfold cut
  split
  · exact iff_of_false (fun ⟨_, hnone, _⟩ => nomatch hnone) (by omega)
  · simp only [Option.some.injEq, exists_eq_left']
    omega

/-- What is read of a text are the frames below the number of frames that its parts name. -/
theorem contains_parse (n : Nat) (text : String) (f : Nat) :
    (parse n text).contains f ↔ f < n ∧ ∃ part ∈ parts text, Names part f := by
  have hparse : (parse n text).ranges =
      (parts text).filterMap fun part => (parsePart part).bind (cut n) := by
    rw [parse, parts, List.filterMap_map, Text.splitAll_eq_splitOn]
    rfl
  rw [contains_iff, hparse]
  constructor
  · rintro ⟨kept, hkept, hf⟩
    obtain ⟨part, hpart, hread⟩ := List.mem_filterMap.1 hkept
    obtain ⟨r, hr, hcut⟩ := Option.bind_eq_some_iff.1 hread
    obtain ⟨hlt, hin⟩ := contains_cut.1 ⟨kept, hcut, hf⟩
    exact ⟨hlt, part, hpart, names_iff.2 ⟨r, hr, hin⟩⟩
  · rintro ⟨hlt, part, hpart, hnames⟩
    obtain ⟨r, hr, hin⟩ := names_iff.1 hnames
    obtain ⟨kept, hcut, hf⟩ := contains_cut.2 ⟨hlt, hin⟩
    exact ⟨kept, List.mem_filterMap.2 ⟨part, hpart, Option.bind_eq_some_iff.2 ⟨r, hr, hcut⟩⟩, hf⟩

/-- A selection is exactly the frames below the number of frames that a part of the text names, in
increasing order. Two texts with the same parts, as far as these name such a frame, select the same,
whatever the order and the repetition of parts and whatever other parts there are. -/
theorem parse_exact (n : Nat) (text : String) :
    (∀ f, (parse n text).contains f ↔ f < n ∧ ∃ part ∈ parts text, Names part f) ∧
    ((parse n text).toList.Pairwise (· < ·) ∧
      ∀ f, f ∈ (parse n text).toList ↔ (parse n text).contains f) ∧
    ∀ text' : String,
      (∀ part, (∃ f < n, Names part f) → (part ∈ parts text ↔ part ∈ parts text')) →
        (parse n text').toList = (parse n text).toList := by
  refine ⟨contains_parse n text, ⟨toList_pairwise _, fun f => mem_toList⟩, fun text' h => ?_⟩
  refine toList_congr fun f => ?_
  rw [contains_parse, contains_parse]
  refine and_congr_right fun hf => exists_congr fun part => and_congr_left fun hnames => ?_
  exact (h part ⟨f, hf, hnames⟩).symm

/-- Frames and a range among parts that select nothing: a range backwards, one without an end, a frame
behind the last one, and no number. In the other text, the range stands first and twice. -/
theorem parse_exact_mixed :
    (parse 36 "0, 5-7,+10,x,9-,7-5,99").toList = [0, 5, 6, 7, 10] ∧
      (parse 36 "5-7,+10,5-7 ,0").toList = (parse 36 "0, 5-7,+10,x,9-,7-5,99").toList := by
  refine ⟨by cbv, (parse_exact 36 _).2.2 _ fun part hnames => ?_⟩
  have hleft : ∀ part ∈ parts "0, 5-7,+10,x,9-,7-5,99", (∃ f < 36, Names part f) →
      part ∈ parts "5-7,+10,5-7 ,0" := by decide +kernel
  have hright : ∀ part ∈ parts "5-7,+10,5-7 ,0", part ∈ parts "0, 5-7,+10,x,9-,7-5,99" := by
    decide +kernel
  exact ⟨fun h => hleft part h hnames, hright part⟩

/-- The largest number a part can hold is no more than the end of a range, and without frames there is
nothing to select. -/
example :
    (parse 5 "2-18446744073709551615").toList = [2, 3, 4] ∧
      (parse 5 "2-18446744073709551616").toList = [] ∧ (parse 0 "0-3").toList = [] := by
  cbv

end FrameSet
end SortLast
