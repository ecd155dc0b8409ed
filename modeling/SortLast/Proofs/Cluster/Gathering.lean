import SortLast.Proofs.Cluster.Plan
import SortLast.Proofs.Cluster.Freshness

/-!
# The images of a frame

A frame is gathered from one participant after the other, each of them once. What has been gathered
follows from what was found in the slots: a fresh image, or none.

* `Plan.ordered_perm`: the visiting order has every participant, and nobody twice.
* `Coordinator.contribution`: the image that a participant contributes to a frame.
* `Coordinator.Accounts`: the numbers and lists of a frame, after some participants.
* `Coordinator.Gathered`: the same with the images that are kept; `Coordinator.Gathered.gather`.
* `Coordinator.finish_cases`: a frame is refused or composited.
-/

namespace SortLast

theorem Plan.ordered_perm {config : ClusterConfig} {preview : Preview} {plan : Plan}
    (h : make config preview = .ok plan) (eye : Point) (order : VisitOrder) :
    (plan.partition.ordered eye order).Perm (List.range config.participants.length) := by
  have hm := made_of_make h
  rw [← ClusterConfig.weights_length hm.configuration]
  exact Partition.ordered_perm hm.partition eye order

namespace Coordinator

/-- The image that a participant contributes to a frame, of whom `x` was found: the image found, or the
one that is kept, if the policy is to use it. -/
def contribution (c : Coordinator) (x : Nat × Option Image) : Option Image :=
  x.2.or (if c.config.policy = .reuseLastImage then c.lastImages[x.1]?.join else none)

/-- What is gathered from some participants, in this order, of each of whom an image was found or
none. -/
structure Accounts (c : Coordinator) (found : List (Nat × Option Image)) (g : Gathering) : Prop where
  order : g.order = (found.filter fun x => (c.contribution x).isSome).map Prod.fst
  images : g.images = found.filterMap c.contribution
  composited : g.composited = found.countP fun x => x.2.isSome
  shown : g.composited + g.reused = g.order.length
  counted : g.composited + g.reused + g.skipped = found.length
  missing : g.missing = (found.filter fun x => x.2.isNone).map Prod.fst

theorem accounts_nil (c : Coordinator) : c.Accounts [] {} := ⟨rfl, rfl, rfl, rfl, rfl, rfl⟩

variable {c d : Coordinator} {found : List (Nat × Option Image)} {g : Gathering}

/-- Whoever contributes an image is put in order; its image is a fresh one, or one that is kept. -/
theorem Accounts.add_image (h : c.Accounts found g) {x : Nat × Option Image} {image : Image}
    (hx : c.contribution x = some image) {composited reused : Nat} {missing : List Nat}
    (hcomposited : composited = g.composited + x.2.isSome.toNat)
    (hreused : reused = g.reused + x.2.isNone.toNat)
    (hmissing : missing = g.missing ++ if x.2.isNone then [x.1] else []) :
    c.Accounts (found ++ [x]) { g with
      order := g.order ++ [x.1], images := g.images ++ [image], composited, reused, missing } := by
  obtain ⟨horder, himages, hcount, hshown, hcounted, hlost⟩ := h
  have hone : x.2.isSome.toNat + x.2.isNone.toNat = 1 := by cases x.2 <;> rfl
  constructor
  · simp [horder, hx]
  · simp [himages, hx]
  · rw [hcomposited, hcount, List.countP_append, List.countP_singleton]
    cases x.2 <;> rfl
  · simp only [hcomposited, hreused, List.length_append, List.length_singleton]
    omega
  · simp only [hcomposited, hreused, List.length_append, List.length_singleton]
    omega
  · rw [hmissing, hlost, List.filter_append, List.map_append]
    obtain ⟨p, _ | fresh⟩ := x <;> rfl

/-- Whoever contributes nothing is left out. -/
theorem Accounts.add_nothing (h : c.Accounts found g) {p : Nat}
    (hp : c.contribution (p, none) = none) :
    c.Accounts (found ++ [(p, none)]) { g with
      missing := g.missing ++ [p], skipped := g.skipped + 1 } := by
  obtain ⟨horder, himages, hcount, hshown, hcounted, hlost⟩ := h
  constructor
  · simp [horder, hp]
  · simp [himages, hp]
  · simp [hcount]
  · exact hshown
  · simp only [List.length_append, List.length_singleton]
    omega
  · simp [hlost]

/-- One participant more. -/
theorem Accounts.add (h : c.Accounts found g) (p : Nat) (fresh : Option Image) :
    c.Accounts (found ++ [(p, fresh)]) (g.add c.config.policy p fresh c.lastImages[p]?.join) := by
  unfold Gathering.add
  cases fresh with
  | some image => exact h.add_image (x := (p, some image)) rfl rfl rfl (List.append_nil _).symm
  | none =>
    dsimp only
    split
    · rename_i image hpolicy hlast
      refine h.add_image (x := (p, none)) ?_ rfl rfl rfl
      rw [contribution, if_pos hpolicy, hlast]
      rfl
    · rename_i hnone
      refine h.add_nothing ?_
      rw [contribution, Option.none_or]
      split
      · rename_i hpolicy
        cases hlast : c.lastImages[p]?.join with
        | none => rfl
        | some image => exact (hnone image hpolicy hlast).elim
      · rfl

/-- A coordinator `d` that has gathered from some participants, when it began as `c`: it keeps the
images found, besides those of the others. -/
structure Gathered (c : Coordinator) (found : List (Nat × Option Image)) (g : Gathering)
    (d : Coordinator) : Prop where
  accounts : c.Accounts found g
  coordinator : ∃ lastImages, d = { c with lastImages } ∧
    ∀ p, p ∉ found.map Prod.fst → lastImages[p]? = c.lastImages[p]?

theorem gathered_nil (c : Coordinator) : c.Gathered [] {} c :=
  ⟨accounts_nil c, c.lastImages, rfl, fun _ _ => rfl⟩

/-- One participant more, from whom nothing was gathered yet. -/
theorem Gathered.gather (h : c.Gathered found g d) {p : Nat} (hp : p ∉ found.map Prod.fst)
    (fresh : Option Image) :
    c.Gathered (found ++ [(p, fresh)]) (d.gather g p fresh).1 (d.gather g p fresh).2 := by
  obtain ⟨haccounts, lastImages, rfl, hkept⟩ := h
  constructor
  · have hadd := haccounts.add p fresh
    rw [← hkept p hp] at hadd
    exact hadd
  · cases fresh with
    | none =>
      refine ⟨lastImages, rfl, fun q hq => hkept q fun hmem => hq ?_⟩
      rw [List.map_append]
      exact List.mem_append_left _ hmem
    | some image =>
      refine ⟨lastImages.set p (some image), rfl, fun q hq => ?_⟩
      rw [List.map_append, List.mem_append, not_or] at hq
      rw [List.getElem?_set_ne fun he => hq.2 (List.mem_singleton.2 he.symm)]
      exact hkept q hq.1

/-- A frame is refused if somebody is missing who must not be, and else composited, if that has a
result. -/
theorem finish_cases (c : Coordinator) (view : View) (evicted lost : List Nat) (g : Gathering) :
    (c.config.policy = .abort ∧ g.missing ≠ [] ∧ c.finish view evicted lost g =
      .ok (.error (refusal c.frameIndex evicted lost g.missing), c)) ∨
    (¬ (c.config.policy = .abort ∧ g.missing ≠ []) ∧
      ((∃ f, c.compositor.composite c.framebuffer c.config.background g.images = .error f ∧
        c.finish view evicted lost g = .error f) ∨
      ∃ framebuffer,
        c.compositor.composite c.framebuffer c.config.background g.images = .ok framebuffer ∧
        c.finish view evicted lost g = .ok (.ok {
            frame := c.frameIndex, order := g.order, eye := view.eye, composited := g.composited,
            reused := g.reused, skipped := g.skipped, evicted, lost }, { c with framebuffer }))) := by
  unfold finish
  by_cases habort : c.config.policy = .abort ∧ g.missing ≠ []
  · rw [if_pos habort]
    exact .inl ⟨habort.1, habort.2, rfl⟩
  · rw [if_neg habort]
    refine .inr ⟨habort, ?_⟩
    cases hc : c.compositor.composite c.framebuffer c.config.background g.images with
    | error f => exact .inl ⟨f, rfl, rfl⟩
    | ok framebuffer => exact .inr ⟨framebuffer, rfl, rfl⟩

end Coordinator
end SortLast
