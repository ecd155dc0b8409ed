import Mathlib.Tactic
import SortLast.Orbit

/-!
# Names of written frames

A frame is written under a pattern whose placeholders are filled in with its number. Whatever stands
around them, a text with a placeholder tells the value that was filled in: a longer value makes a
longer text, and values of one length stand at the same place, behind what precedes the first
placeholder. A text without a placeholder is the same for all values.

* `Text.exists_substitute_eq`, `Text.length_substitute_lt`: the place and the length.
* `Text.substitute_injective`, `Capture.path_ne_iff`: two names differ exactly if the pattern has a
  placeholder and the frames differ.
* `Orbit.Files`: the files that an orbit has written before a frame, one step after the other.
* `Capture.files_apart`: an orbit writes no file twice.
-/

namespace SortLast

/-! ### Filling in a value -/

namespace Text

variable {v w cs : List Char} {c : Char}

/-- What a value is filled in for. -/
def placeholder : List Char := ['\x7b', '\x7d']

theorem substitute_placeholder_append (v cs : List Char) :
    substitute v (placeholder ++ cs) = v ++ substitute v cs := rfl

/-- A character at which no placeholder begins stays. -/
theorem substitute_cons (h : ¬ placeholder <+: c :: cs) (v : List Char) :
    substitute v (c :: cs) = c :: substitute v cs := by
  refine substitute.eq_3 v c cs fun rest hc hrest => h ?_
  rw [hc, hrest]
  exact List.prefix_append placeholder rest

/-- Induction along the search from left to right, which finds a placeholder or goes on by one
character. -/
@[elab_as_elim]
theorem placeholder_induction {motive : List Char → Prop} (nil : motive [])
    (found : ∀ cs, motive cs → motive (placeholder ++ cs))
    (skipped : ∀ c cs, ¬ placeholder <+: c :: cs → motive cs → motive (c :: cs)) (cs : List Char) :
    motive cs := by
  induction cs using substitute.induct with
  | case1 => exact nil
  | case2 cs ih => exact found cs ih
  | case3 c cs h ih =>
    refine skipped c cs (fun ⟨rest, hrest⟩ => ?_) ih
    obtain ⟨hc, hcs⟩ := List.cons.inj hrest
    exact h rest hc.symm hcs.symm

/-- Without a placeholder, nothing is filled in. -/
theorem substitute_of_not_infix (h : ¬ placeholder <:+: cs) (v : List Char) : substitute v cs = cs := by
  induction cs using placeholder_induction with
  | nil => rfl
  | found cs => exact absurd (List.prefix_append placeholder cs).isInfix h
  | skipped c cs hc ih => rw [substitute_cons hc, ih fun hcs => h (List.infix_cons hcs)]

/-- At the first placeholder, every value stands behind the same text. -/
theorem exists_substitute_eq (h : placeholder <:+: cs) :
    ∃ front back, ∀ v, substitute v cs = front ++ v ++ substitute v back := by
  induction cs using placeholder_induction with
  | nil => exact absurd (List.eq_nil_of_infix_nil h) (List.cons_ne_nil _ _)
  | found cs => exact ⟨[], cs, fun v => substitute_placeholder_append v cs⟩
  | skipped c cs hc ih =>
    obtain ⟨front, back, hfront⟩ := ih ((List.infix_cons_iff.1 h).resolve_left hc)
    refine ⟨c :: front, back, fun v => ?_⟩
    rw [substitute_cons hc, hfront]
    rfl

theorem length_substitute_le (h : v.length ≤ w.length) (cs : List Char) :
    (substitute v cs).length ≤ (substitute w cs).length := by
  induction cs using placeholder_induction with
  | nil => exact Nat.le_refl _
  | found cs ih =>
    rw [substitute_placeholder_append, substitute_placeholder_append, List.length_append,
      List.length_append]
    exact Nat.add_le_add h ih
  | skipped c cs hc ih =>
    rw [substitute_cons hc, substitute_cons hc]
    exact Nat.succ_le_succ ih

/-- A longer value makes a longer text. -/
theorem length_substitute_lt (hcs : placeholder <:+: cs) (h : v.length < w.length) :
    (substitute v cs).length < (substitute w cs).length := by
  obtain ⟨front, back, hsubstitute⟩ := exists_substitute_eq hcs
  have hback := length_substitute_le h.le back
  rw [hsubstitute, hsubstitute]
  simp only [List.length_append]
  omega

/-- A text with a placeholder tells what was filled in. The place alone would not do: of two values, one
could begin with the other, and the text behind them continue it. -/
theorem substitute_injective (h : placeholder <:+: cs) : Function.Injective (substitute · cs) := by
  intro v w hvw
  have hlength : v.length = w.length := by
    have hsame := congrArg List.length hvw
    rcases Nat.lt_trichotomy v.length w.length with hlt | heq | hgt
    · exact absurd hsame (length_substitute_lt h hlt).ne
    · exact heq
    · exact absurd hsame (length_substitute_lt h hgt).ne'
  obtain ⟨front, back, hsubstitute⟩ := exists_substitute_eq h
  have hplace : front ++ (v ++ substitute v back) = front ++ (w ++ substitute w back) := by
    rw [← List.append_assoc, ← List.append_assoc, ← hsubstitute, ← hsubstitute]
    exact hvw
  exact List.append_inj_left (List.append_cancel_left hplace) hlength

theorem toDigits_injective : Function.Injective (Nat.toDigits 10) := by
  intro m n h
  have hvalue := congrArg (Nat.ofDigitChars 10 · 0) h
  simpa only [Nat.ofDigitChars_toDigits (by decide : 1 < 10) (by decide : 10 ≤ 10)] using hvalue

end Text

/-! ### Names -/

/-- Two names differ exactly if the pattern has a placeholder and the frames differ. -/
theorem Capture.path_ne_iff {c : Capture} {f g : Nat} :
    c.path f ≠ c.path g ↔ Text.placeholder <:+: c.pattern.toList ∧ f ≠ g := by
  rw [Capture.path, Capture.path, Ne, String.ofList_inj]
  by_cases h : Text.placeholder <:+: c.pattern.toList
  · rw [and_iff_right h, not_iff_not]
    exact ((Text.substitute_injective h).comp Text.toDigits_injective).eq_iff
  · rw [Text.substitute_of_not_infix h, Text.substitute_of_not_infix h]
    exact iff_of_false (fun hne => hne rfl) fun hboth => h hboth.1

/-! ### Written files -/

namespace Orbit

variable {o : CoordinatorOptions} {next later : Nat} {saved : List SavedFrame}

/-- The files written before a frame: in the order of their frames, each with the name of its frame. -/
structure Files (o : CoordinatorOptions) (next : Nat) (saved : List SavedFrame) : Prop where
  /-- No frame is written twice. -/
  ordered : saved.Pairwise fun a b => a.frame < b.frame
  /-- All frames are over. -/
  before : ∀ file ∈ saved, file.frame < next
  /-- Their names are those of the options. -/
  named : ∀ file ∈ saved, file.path = o.capture.path file.frame

theorem Files.nil (o : CoordinatorOptions) : Files o 0 [] :=
  ⟨List.Pairwise.nil, by simp, by simp⟩

theorem Files.mono (h : Files o next saved) (hle : next ≤ later) : Files o later saved :=
  { h with before := fun file hfile => (h.before file hfile).trans_le hle }

/-- One more frame is written. -/
theorem Files.concat (h : Files o next saved) (image : Framebuffer Single) :
    Files o (next + 1) (saved ++ [⟨next, o.capture.path next, image⟩]) where
  ordered := by
    refine List.pairwise_append.2 ⟨h.ordered, List.pairwise_singleton _ _, fun a ha b hb => ?_⟩
    rw [List.mem_singleton.1 hb]
    exact h.before a ha
  before file hfile := by
    rcases List.mem_append.1 hfile with hold | hnew
    · exact (h.before file hold).trans (Nat.lt_succ_self next)
    · rw [List.mem_singleton.1 hnew]
      exact Nat.lt_succ_self next
  named file hfile := by
    rcases List.mem_append.1 hfile with hold | hnew
    · exact h.named file hold
    · rw [List.mem_singleton.1 hnew]

/-- The frames of an orbit from one on. -/
theorem Files.frames (h : Files o next saved) (peers : List Peer) (left : Nat) (s : System) :
    Files o (next + left) (frames o peers next left s saved).saved := by
  induction left generalizing next s saved with
  | zero => exact h
  | succ left ih =>
    rw [Orbit.frames]
    split
    · exact h.mono (Nat.le_add_right _ _)
    · rename_i t _
      have hwritten : Files o (next + 1)
          (if o.capture.selects next then
            saved ++ [⟨next, o.capture.path next, t.coordinator.framebuffer⟩] else saved) := by
        split
        · exact h.concat _
        · exact h.mono (Nat.le_succ next)
      rw [show next + (left + 1) = next + 1 + left by omega]
      dsimp only
      split
      · exact hwritten.mono (Nat.le_add_right _ _)
      · exact ih hwritten t

theorem files_run (net : Network) (o : CoordinatorOptions) :
    Files o o.frames.toNat (run net o).saved := by
  have hnothing : Files o o.frames.toNat [] := (Files.nil o).mono (Nat.zero_le _)
  rw [run]
  split
  · exact hnothing
  · exact hnothing
  · rename_i peers s _
    have hframes := (Files.nil o).frames peers o.frames.toNat s
    rwa [Nat.zero_add] at hframes

/-- With a placeholder, all names are different; without one, there is a single name. -/
theorem Files.nodup_iff (h : Files o next saved) : (saved.map SavedFrame.path).Nodup ↔
    Text.placeholder <:+: o.output.toList ∨ saved.length ≤ 1 := by
  have hpaths : (saved.map SavedFrame.path).Nodup ↔ saved.Pairwise fun a b =>
      Text.placeholder <:+: o.output.toList ∧ a.frame ≠ b.frame := by
    rw [List.Nodup, List.pairwise_map]
    refine List.Pairwise.iff_of_mem fun {a b} ha hb => ?_
    rw [h.named a ha, h.named b hb]
    exact Capture.path_ne_iff
  rw [hpaths]
  by_cases hplaceholder : Text.placeholder <:+: o.output.toList
  · exact iff_of_true (h.ordered.imp fun hlt => ⟨hplaceholder, hlt.ne⟩) (.inl hplaceholder)
  · rw [or_iff_right hplaceholder]
    match saved with
    | [] | [_] => simp
    | a :: b :: rest =>
      refine iff_of_false (fun hall => ?_) (by simp)
      exact hplaceholder (List.rel_of_pairwise_cons hall List.mem_cons_self).1

end Orbit

namespace Capture

/-- Two names differ exactly if the frames do and the pattern has a placeholder, wherever and however
often it stands there. So whatever the network does to an orbit, with a placeholder none of its files
takes the place of another one, and without one each takes that of the file before. -/
theorem files_apart :
    (∀ (c : Capture) (f g : Nat),
      c.path f ≠ c.path g ↔ Text.placeholder <:+: c.pattern.toList ∧ f ≠ g) ∧
    ∀ (net : Network) (o : CoordinatorOptions),
      ((Orbit.run net o).saved.map SavedFrame.path).Nodup ↔
        Text.placeholder <:+: o.output.toList ∨ (Orbit.run net o).saved.length ≤ 1 :=
  ⟨fun _ _ _ => path_ne_iff, fun net o => (Orbit.files_run net o).nodup_iff⟩

/-- A placeholder inside braces, and one behind a digit that could belong to the number. -/
theorem files_apart_nested :
    let c : Capture := { pattern := "\x7b\x7b\x7d\x7d1\x7b\x7d" }
    let net := Network.ofPeers [.ofRenderer (FlatRenderer.renderer ⟨⟨1, 1, 1, 1⟩, false⟩) ()]
    let o : CoordinatorOptions :=
      { participants := [⟨"a", 1⟩], width := 1, height := 1, frames := 2, dims := ⟨1, 1, 1⟩,
        output := c.pattern }
    c.path 1 = "\x7b1\x7d11" ∧ c.path 11 = "\x7b11\x7d111" ∧ c.path 1 ≠ c.path 11 ∧
      (Orbit.run net o).saved.map SavedFrame.path = ["\x7b0\x7d10", "\x7b1\x7d11"] ∧
      ((Orbit.run net o).saved.map SavedFrame.path).Nodup := by
  intro c net o
  have hplaceholder : Text.placeholder <:+: c.pattern.toList := by decide +kernel
  refine ⟨by decide +kernel, by decide +kernel, (files_apart.1 c 1 11).2 ⟨hplaceholder, by decide⟩,
    by decide +kernel, (files_apart.2 net o).2 (.inl hplaceholder)⟩

end Capture
end SortLast
