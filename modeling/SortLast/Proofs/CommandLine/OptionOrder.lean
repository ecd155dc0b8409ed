import SortLast.CommandLine.CoordinatorOptions
import SortLast.Proofs.CommandLine.Selection
import SortLast.Proofs.Outcome

/-!
# The order of options

An argument list that can be used is a list of groups, each an option with its value or an option that
takes none. Settings of different options do not touch the same part of the options, so neighbouring
groups of different options can change places. The frames to write are cut to the number of frames only
when all settings are made, wherever these stand.

* `OptionGroup`: an option as it stands among the arguments.
* `CoordinatorSetting.readAll_flatMap`, `CoordinatorSetting.exists_groups`: groups are read one by one.
* `CoordinatorOptions.apply_comm`: settings of different options commute.
* `CoordinatorOptions.parse_swap`: neighbouring groups of different options can change places.
-/

namespace SortLast

/-- An option as it stands among the arguments, with a value if it takes one. -/
structure OptionGroup where
  option : String
  value : Option String
  /-- The value is there if the option takes one. -/
  complete : value.isSome = (CoordinatorSetting.valueReader option).isSome
  deriving DecidableEq

namespace OptionGroup

/-- The arguments of a group. -/
def arguments (g : OptionGroup) : List String := g.option :: g.value.toList

/-- The setting that is read of a group. -/
def Makes (g : OptionGroup) (s : CoordinatorSetting) : Prop :=
  CoordinatorSetting.read g.option g.value.toList = .ok (s, [])

instance (g : OptionGroup) (s : CoordinatorSetting) : Decidable (g.Makes s) :=
  inferInstanceAs (Decidable (_ = _))

/-- The long name of the option, which may be written with a single letter. -/
def longName (g : OptionGroup) : String :=
  match g.option with
  | "-p" => "--participant"
  | "-o" => "--output"
  | "-c" => "--capture"
  | option => option

end OptionGroup

/-! ### Reading -/

theorem optionValue_eq_ok_iff {option value : String} {rest left : List String} :
    optionValue option rest = .ok (value, left) ↔ rest = value :: left := by
  cases rest <;> simp [optionValue]

namespace CoordinatorSetting

variable {args rest left : List String} {option : String} {s : CoordinatorSetting}

/-- The long name of the option that makes a setting. -/
def longName : CoordinatorSetting → String
  | .participant _ => "--participant"
  | .size _ _ => "--size"
  | .frames _ => "--frames"
  | .dims _ => "--dims"
  | .timeSteps _ => "--time-steps"
  | .brickSize _ => "--brick-size"
  | .frameTimeout _ => "--frame-timeout-ms"
  | .policy _ => "--policy"
  | .frontToBack => "--front-to-back"
  | .weights _ => "--weights"
  | .output _ => "--output"
  | .capture _ => "--capture"

theorem readAll_cons (option : String) (rest : List String) :
    readAll (option :: rest) = do
      let (s, left) ← read option rest
      let settings ← readAll left
      return s :: settings := by
  rw [readAll]
  split
  · rename_i e hread
    rw [hread]
    rfl
  · rename_i s left hread
    simp only [hread]
    rfl

/-- What is read are an option and its value, or an option that takes none. -/
theorem read_eq_ok_iff : read option rest = .ok (s, left) ↔
    (∃ reader value, valueReader option = some reader ∧ rest = value :: left ∧ reader value = .ok s) ∨
      valueReader option = none ∧ option = "--front-to-back" ∧ s = .frontToBack ∧ rest = left := by
  unfold read
  cases hreader : valueReader option with
  | none => by_cases hflag : option = "--front-to-back" <;> simp [hflag, eq_comm]
  | some reader =>
    constructor
    · intro h
      obtain ⟨⟨value, behind⟩, hrest, h⟩ := ok_of_bind h
      obtain ⟨_, hvalue, h⟩ := ok_of_bind h
      cases h
      exact .inl ⟨reader, value, rfl, optionValue_eq_ok_iff.1 hrest, hvalue⟩
    · rintro (⟨_, value, ⟨⟩, rfl, hvalue⟩ | ⟨⟨⟩, -⟩)
      show (reader value >>= fun s => pure (s, left)) = .ok (s, left)
      rw [hvalue]
      rfl

/-- What stands behind a group is left when the group is read. -/
theorem read_append {g : OptionGroup} :
    read g.option (g.value.toList ++ rest) = .ok (s, left) ↔ g.Makes s ∧ left = rest := by
  have hcomplete := g.complete
  unfold OptionGroup.Makes
  rw [read_eq_ok_iff, read_eq_ok_iff]
  cases hvalue : g.value with
  | none =>
    rw [hvalue, Option.isSome_none, eq_comm, Option.isSome_eq_false_iff, Option.isNone_iff_eq_none]
      at hcomplete
    simp [hcomplete, and_assoc, eq_comm]
  | some value =>
    rw [hvalue, Option.isSome_some, eq_comm, Option.isSome_iff_exists] at hcomplete
    obtain ⟨reader, hreader⟩ := hcomplete
    simp [hreader, eq_comm, and_comm]

/-- Groups are read one after the other. -/
theorem readAll_flatMap {groups : List OptionGroup} {settings : List CoordinatorSetting} :
    readAll (groups.flatMap OptionGroup.arguments) = .ok settings ↔
      List.Forall₂ OptionGroup.Makes groups settings := by
  induction groups generalizing settings with
  | nil =>
    rw [List.flatMap_nil, readAll, List.forall₂_nil_left_iff]
    exact ⟨fun h => by cases h; rfl, fun h => by rw [h]⟩
  | cons g groups ih =>
    rw [List.flatMap_cons, OptionGroup.arguments, List.cons_append, readAll_cons,
      List.forall₂_cons_left_iff]
    constructor
    · intro h
      obtain ⟨⟨s, left⟩, hread, h⟩ := ok_of_bind h
      obtain ⟨others, hothers, h⟩ := ok_of_bind h
      cases h
      obtain ⟨hmakes, rfl⟩ := read_append.1 hread
      exact ⟨s, others, hmakes, ih.1 hothers, rfl⟩
    · rintro ⟨s, others, hmakes, hothers, rfl⟩
      rw [read_append.2 ⟨hmakes, rfl⟩]
      show (readAll _ >>= fun settings => pure (s :: settings)) = _
      rw [ih.2 hothers]
      rfl

/-- An argument list that can be read is one of groups. -/
theorem exists_groups {settings : List CoordinatorSetting} (h : readAll args = .ok settings) :
    ∃ groups : List OptionGroup, groups.flatMap OptionGroup.arguments = args := by
  induction args using readAll.induct generalizing settings with
  | case1 => exact ⟨[], rfl⟩
  | case2 option rest e hread =>
    rw [readAll_cons, hread] at h
    cases h
  | case3 option rest s left hread _ ih =>
    rw [readAll_cons] at h
    obtain ⟨_, hread', h⟩ := ok_of_bind h
    cases hread.symm.trans hread'
    obtain ⟨others, hothers, -⟩ := ok_of_bind h
    obtain ⟨groups, rfl⟩ := ih hothers
    rcases read_eq_ok_iff.1 hread with ⟨reader, value, hreader, rfl, -⟩ | ⟨hreader, -, -, rfl⟩
    · exact ⟨⟨option, some value, by rw [hreader]; rfl⟩ :: groups, rfl⟩
    · exact ⟨⟨option, none, by rw [hreader]; rfl⟩ :: groups, rfl⟩

/-! ### Long names -/

theorem longName_of_readSize {value : String} (h : readSize value = .ok s) :
    s.longName = "--size" := by
  unfold readSize at h
  split at h
  · cases h
  · obtain ⟨width, -, h⟩ := ok_of_bind h
    obtain ⟨height, -, h⟩ := ok_of_bind h
    cases h
    rfl

theorem longName_of_readDims {value : String} (h : readDims value = .ok s) :
    s.longName = "--dims" := by
  obtain ⟨parts, -, h⟩ := ok_of_bind h
  split at h <;> cases h
  rfl

theorem longName_of_readPolicy {value : String} (h : readPolicy value = .ok s) :
    s.longName = "--policy" := by
  unfold readPolicy at h
  split at h <;> cases h <;> rfl

/-- A value is read as a setting of the option that it belongs to. -/
theorem longName_of_reader {g : OptionGroup} {reader : String → Except OptionError CoordinatorSetting}
    {value : String} (hreader : valueReader g.option = some reader) (h : reader value = .ok s) :
    s.longName = g.longName := by
  unfold valueReader at hreader
  split at hreader <;> cases hreader <;> rename_i hoption <;>
    simp only [OptionGroup.longName, hoption]
  -- a participant, by either of its names
  case h_1 | h_2 =>
    dsimp only at h
    cases hparse : ParticipantAddress.parse value <;> rw [hparse] at h <;> cases h
    rfl
  case h_3 => exact longName_of_readSize h
  case h_5 => exact longName_of_readDims h
  case h_9 => exact longName_of_readPolicy h
  -- texts, which are taken as they are
  case h_11 | h_12 | h_13 | h_14 =>
    cases h
    rfl
  -- numbers
  all_goals
    obtain ⟨_, -, h⟩ := ok_of_bind h
    cases h
    rfl

/-- A group makes a setting of its own option. -/
theorem longName_of_makes {g : OptionGroup} (h : g.Makes s) : s.longName = g.longName := by
  rcases read_eq_ok_iff.1 h with ⟨reader, value, hreader, -, hvalue⟩ | ⟨-, hflag, rfl, -⟩
  · exact longName_of_reader hreader hvalue
  · simp only [OptionGroup.longName, hflag]
    rfl

end CoordinatorSetting

/-! ### Settings -/

namespace CoordinatorOptions

open OptionGroup (arguments)

variable {args : List String} {o : CoordinatorOptions} {s t : CoordinatorSetting}

/-- Settings of different options commute. -/
theorem apply_comm (o : CoordinatorOptions) (h : s.longName ≠ t.longName) :
    (o.apply s).apply t = (o.apply t).apply s := by
  cases s <;> cases t <;> first | rfl | exact absurd rfl h

theorem parse_eq_ok_iff : parse args = .ok o ↔
    ∃ settings, CoordinatorSetting.readAll args = .ok settings ∧ settings.foldl apply {} = o ∧
      o.participants.isEmpty = false := by
  unfold parse
  constructor
  · intro h
    obtain ⟨settings, hsettings, h⟩ := ok_of_bind h
    by_cases hempty : (settings.foldl apply {}).participants.isEmpty
    · cases (if_pos hempty).symm.trans h
    · cases (if_neg hempty).symm.trans h
      exact ⟨settings, hsettings, rfl, Bool.eq_false_iff.2 hempty⟩
  · rintro ⟨settings, hsettings, rfl, hempty⟩
    rw [hsettings]
    exact if_neg (Bool.eq_false_iff.1 hempty)

/-- Neighbours of different options make settings that have the same effect the other way round. -/
theorem exists_swapped {before after : List OptionGroup} {g h : OptionGroup}
    {settings : List CoordinatorSetting} (hne : g.longName ≠ h.longName)
    (hmakes : List.Forall₂ OptionGroup.Makes (before ++ g :: h :: after) settings)
    (o : CoordinatorOptions) :
    ∃ swapped, List.Forall₂ OptionGroup.Makes (before ++ h :: g :: after) swapped ∧
      swapped.foldl apply o = settings.foldl apply o := by
  induction before generalizing settings o with
  | nil =>
    obtain ⟨s, _, hs, hrest, rfl⟩ := List.forall₂_cons_left_iff.1 hmakes
    obtain ⟨t, others, ht, hothers, rfl⟩ := List.forall₂_cons_left_iff.1 hrest
    refine ⟨t :: s :: others, .cons ht (.cons hs hothers), ?_⟩
    rw [← CoordinatorSetting.longName_of_makes hs, ← CoordinatorSetting.longName_of_makes ht] at hne
    rw [List.foldl_cons, List.foldl_cons, List.foldl_cons, List.foldl_cons, apply_comm o hne]
  | cons g' before ih =>
    obtain ⟨s, others, hs, hothers, rfl⟩ := List.forall₂_cons_left_iff.1 hmakes
    obtain ⟨swapped, hswapped, hfold⟩ := ih hothers (o.apply s)
    exact ⟨s :: swapped, .cons hs hswapped, hfold⟩

/-- What is selected of the frames lies below their number. -/
theorem lt_of_contains_capture {frames : FrameSet} (hframes : o.capture.frames = some frames) {f : Nat}
    (hf : frames.contains f) : f < o.frames.toNat := by
  obtain ⟨selection, -, rfl⟩ := Option.map_eq_some_iff.1 hframes
  exact ((FrameSet.contains_parse _ _ f).1 hf).1

/-- An argument list that can be used is one of groups, of which neighbours that belong to different
options can change places: this changes nothing of the options. The frames that are selected lie below
the number of frames, wherever this stands. -/
theorem parse_swap (hparse : parse args = .ok o) :
    (∃ groups : List OptionGroup, groups.flatMap arguments = args) ∧
    (∀ (before : List OptionGroup) (g h : OptionGroup) (after : List OptionGroup),
      (before ++ g :: h :: after).flatMap arguments = args → g.longName ≠ h.longName →
        parse ((before ++ h :: g :: after).flatMap arguments) = .ok o) ∧
    ∀ frames, o.capture.frames = some frames → ∀ f, frames.contains f → f < o.frames.toNat := by
  obtain ⟨settings, hsettings, hfold, hparticipants⟩ := parse_eq_ok_iff.1 hparse
  refine ⟨CoordinatorSetting.exists_groups hsettings, fun before g h after hargs hne => ?_,
    fun frames hframes f => lt_of_contains_capture hframes⟩
  rw [← hargs, CoordinatorSetting.readAll_flatMap] at hsettings
  obtain ⟨swapped, hswapped, hsame⟩ := exists_swapped hne hsettings {}
  exact parse_eq_ok_iff.2
    ⟨swapped, CoordinatorSetting.readAll_flatMap.2 hswapped, hsame.trans hfold, hparticipants⟩

/-- The frames to write stand before the number of frames; behind it, they are the same. -/
theorem parse_swap_capture :
    ∃ o, parse ["-p", "a:1", "-c", "3-99", "--frames", "5"] = .ok o ∧
      parse ["-p", "a:1", "--frames", "5", "-c", "3-99"] = .ok o ∧
      o.capture.frames = some ⟨[⟨3, 4⟩]⟩ := by
  have hmakes : List.Forall₂ OptionGroup.Makes
      [⟨"-p", some "a:1", by rfl⟩, ⟨"-c", some "3-99", by rfl⟩, ⟨"--frames", some "5", by rfl⟩]
      [.participant ⟨"a", 1⟩, .capture "3-99", .frames 5] := by decide +kernel
  have hparse := parse_eq_ok_iff.2 ⟨_, CoordinatorSetting.readAll_flatMap.2 hmakes, rfl, rfl⟩
  refine ⟨_, hparse, ?_, by decide +kernel⟩
  exact (parse_swap hparse).2.1 [⟨"-p", some "a:1", by rfl⟩] ⟨"-c", some "3-99", by rfl⟩
    ⟨"--frames", some "5", by rfl⟩ [] rfl (by decide)

end CoordinatorOptions

end SortLast
