import SortLast.Proofs.Cluster.Refusals

/-!
# What is in a frame

A frame that is shown accounts for every participant. Whoever has delivered an image for it contributes
that image. The others contribute the latest image that they have delivered, if the policy is to use it,
and nothing else.

* `Coordinator.made`: who contributes which image.
* `System.Delivered`: the images that a participant has delivered.
* `System.Collects`: where the images that are kept come from; `System.delivered_of_kept`.
* `System.Contributes`: the image that a participant contributes to a frame.
* `System.Found.contribution_iff`: what was gathered is what participants contribute.
* `System.shown_accounted`: whatever participants do.
-/

namespace SortLast

/-! ### Who contributes -/

namespace Coordinator

/-- The participants that contribute an image, of whom `found` was found, with these images. -/
def made (c : Coordinator) (found : List (Nat × Option Image)) : List (Nat × Image) :=
  found.filterMap fun x => (c.contribution x).map (x.1, ·)

variable {c : Coordinator} {found : List (Nat × Option Image)} {g : Gathering}

theorem mem_made {p : Nat} {image : Image} :
    (p, image) ∈ c.made found ↔ ∃ x ∈ found, x.1 = p ∧ c.contribution x = some image := by
  simp [made, List.mem_filterMap, Option.map_eq_some_iff, Prod.mk.injEq, and_comm]

theorem Accounts.made_snd (h : c.Accounts found g) : (c.made found).map Prod.snd = g.images := by
  rw [h.images, made, List.map_filterMap]
  simp [Option.map_map, Function.comp_def]

theorem Accounts.made_fst (h : c.Accounts found g) : (c.made found).map Prod.fst = g.order := by
  rw [h.order, made]
  clear h
  induction found with
  | nil => rfl
  | cons x found ih =>
    cases hx : c.contribution x with
    | none =>
      rw [List.filterMap_cons_none (by rw [hx]; rfl), List.filter_cons_of_neg (by simp [hx]), ih]
    | some image =>
      rw [List.filterMap_cons_some (by rw [hx]; rfl), List.filter_cons_of_pos (by simp [hx]),
        List.map_cons, List.map_cons, ih]

end Coordinator

namespace System

variable {s s₀ t u : System} {keeps : Behaviour} {view : View} {p k : Nat} {image : Image}

/-! ### The images of a run -/

/-- In a run from `s₀` to `t`, participant `p` has delivered `image` for frame `k`. -/
def Delivered (keeps : Behaviour) (s₀ t : System) (p k : Nat) (image : Image) : Prop :=
  ∃ u, Run keeps s₀ u ∧ Run keeps u t ∧ u.pool.slots.get p = some ⟨k, image⟩

theorem delivered_of_get (hrun : Run keeps s₀ t) {e : SlotEntry} (h : t.pool.slots.get p = some e) :
    Delivered keeps s₀ t p e.frame e.image := ⟨t, hrun, .refl t, h⟩

theorem Delivered.trans (h : Delivered keeps s₀ t p k image) (hrun : Run keeps t u) :
    Delivered keeps s₀ u p k image := by
  obtain ⟨v, hv, hw, hget⟩ := h
  exact ⟨v, hv, hw.trans hrun, hget⟩

/-- In the slot is the latest image that was delivered. -/
theorem Delivered.latest (h : Delivered keeps s₀ t p k image) (h₀ : s₀.Sound) :
    ∃ e, t.pool.slots.get p = some e ∧ k ≤ e.frame ∧ (k = e.frame → e.image = image) := by
  obtain ⟨u, hu, ht, hget⟩ := h
  have hsound := h₀.run hu
  have hlt := lt_of_get hget
  rw [hsound.size] at hlt
  obtain ⟨a, ha⟩ := hsound.steady.seated p hlt
  obtain ⟨b, hb, hbefore⟩ := ht.seat hsound.steady hsound.filed ha
  have hslot : a.slot = some ⟨k, image⟩ := ha.get.symm.trans hget
  have hnumber := (hsound.filed p a ha).frame hslot
  change k = a.worker.delivered at hnumber
  have hle := hbefore.delivered
  have hholds := (hsound.run ht).filed p b hb
  cases hlast : b.slot with
  | none =>
    have hzero := hholds.delivered hlast
    rw [hbefore.slot (by omega), hslot] at hlast
    cases hlast
  | some e =>
    have hframe := hholds.frame hlast
    refine ⟨e, hb.get.trans hlast, by omega, fun heq => ?_⟩
    rw [hbefore.slot (by omega), hslot] at hlast
    exact congrArg SlotEntry.image (Option.some.inj hlast).symm

theorem Delivered.lt_participantCount (h : Delivered keeps s₀ t p k image) (h₀ : s₀.Sound) :
    p < t.coordinator.participantCount := by
  obtain ⟨u, hu, ht, hget⟩ := h
  rw [ht.participantCount, ← (h₀.run hu).size]
  exact lt_of_get hget

/-- A participant that has delivered nothing for later frames has delivered what is fresh. -/
theorem delivered_iff (h₀ : s₀.Sound) (hrun : Run keeps s₀ t) (hahead : ¬ t.Ahead p) :
    Delivered keeps s₀ t p t.coordinator.frameIndex image ↔
      t.pool.slots.fresh p t.coordinator.frameIndex = some image := by
  constructor
  · intro h
    obtain ⟨e, he, hle, himage⟩ := h.latest h₀
    have hframe : e.frame = t.coordinator.frameIndex :=
      Nat.le_antisymm (Nat.le_of_not_lt fun hlt => hahead ⟨e, he, hlt⟩) hle
    rw [← himage hframe.symm, ← hframe]
    exact fresh_of_get he
  · intro h
    exact delivered_of_get hrun (get_of_fresh h)

/-! ### Images that are kept -/

/-- What the coordinator keeps in `t` it has kept in `s`, or found in the slots there. -/
structure Collects (s t : System) : Prop where
  frame : s.coordinator.frameIndex ≤ t.coordinator.frameIndex
  image : ∀ (p : Nat) image, t.coordinator.lastImages[p]?.join = some image →
    s.coordinator.lastImages[p]?.join = some image ∨
      s.pool.slots.fresh p s.coordinator.frameIndex = some image

theorem collects_of_lastImages (hframe : s.coordinator.frameIndex ≤ t.coordinator.frameIndex)
    (hlast : t.coordinator.lastImages = s.coordinator.lastImages) : Collects s t :=
  ⟨hframe, fun _ _ hp => .inl (hlast ▸ hp)⟩

theorem collects_of_books (h : t.coordinator.books = s.coordinator.books) : Collects s t :=
  collects_of_lastImages (frameIndex_of_books h).ge (lastImages_of_books h)

/-- The image of a participant is taken. -/
theorem collects_of_gather {q : Nat} {g : Gathering} (hbooks : t.coordinator.books =
    (s.coordinator.books.gather g q (s.pool.slots.fresh q s.coordinator.frameIndex)).2) :
    Collects s t := by
  have hframe := congrArg Coordinator.frameIndex hbooks
  have hlast := congrArg Coordinator.lastImages hbooks
  change t.coordinator.frameIndex = s.coordinator.frameIndex at hframe
  cases hfresh : s.pool.slots.fresh q s.coordinator.frameIndex with
  | none =>
    rw [hfresh] at hlast
    exact collects_of_lastImages hframe.ge hlast
  | some found =>
    rw [hfresh] at hlast
    change t.coordinator.lastImages = s.coordinator.lastImages.set q (some found) at hlast
    refine ⟨hframe.ge, fun p image hp => ?_⟩
    rw [hlast, List.getElem?_set] at hp
    split at hp
    · rename_i hq
      subst hq
      split at hp
      · exact .inr (hfresh.trans hp)
      · cases hp
    · exact .inl hp

theorem Turn.collects (h : Turn s t) : Collects s t := by
  cases h with
  | reap _ _ same | look _ _ _ same | send _ _ same | sent _ _ same | wait _ _ same | collect _ _ same
  | crash _ _ same | tell _ _ same | exit _ _ _ same | exited _ _ _ same | close _ _ same
  | join _ _ same => exact collects_of_books same.books
  | nobody _ _ hbooks | refuse _ _ hbooks | told _ hbooks | joined _ hbooks
  | closeBarrier _ _ hbooks => exact collects_of_books hbooks
  | begin _ _ _ _ hbooks =>
    have hframe := congrArg Coordinator.frameIndex hbooks
    have hlast := congrArg Coordinator.lastImages hbooks
    exact collects_of_lastImages (hframe ▸ Nat.le_succ _) hlast
  | gather _ _ hbooks => exact collects_of_gather hbooks
  | finish _ hf =>
    obtain ⟨framebuffer, hbooks⟩ := finish_eq hf
    have hframe := congrArg Coordinator.frameIndex hbooks
    have hlast := congrArg Coordinator.lastImages hbooks
    exact collects_of_lastImages hframe.ge hlast

theorem Step.collects (h : Step keeps s t) : Collects s t := by
  rcases step_cases h with ⟨hturn, -⟩ | ⟨-, -, op, rfl, hbegins⟩ | ⟨-, same, -⟩
  · exact hturn.collects
  · exact collects_of_lastImages hbegins.frameIndex.ge (start_fixed s op).2
  · exact collects_of_books same.books

/-- Every image that the coordinator keeps was delivered, for the latest frame or for an earlier one. -/
theorem delivered_of_kept (hnone : ∀ p : Nat, s₀.coordinator.lastImages[p]?.join = none)
    (hrun : Run keeps s₀ t) (hp : t.coordinator.lastImages[p]?.join = some image) :
    ∃ k ≤ t.coordinator.frameIndex, Delivered keeps s₀ t p k image := by
  induction hrun with
  | refl =>
    rw [hnone p] at hp
    cases hp
  | @tail t u hrun hstep ih =>
    have hlast : Run keeps t u := (Run.refl t).tail hstep
    obtain ⟨hle, hcollects⟩ := hstep.collects
    rcases hcollects p image hp with hkept | hfresh
    · obtain ⟨k, hk, hdelivered⟩ := ih hkept
      exact ⟨k, hk.trans hle, hdelivered.trans hlast⟩
    · exact ⟨_, hle, (delivered_of_get hrun (get_of_fresh hfresh)).trans hlast⟩

/-! ### Contributions -/

/-- Participant `p` contributes `image` to frame `k`: it has delivered it for this frame, or else, if the
policy is to use the latest one, for the latest frame before that it has delivered one for. -/
def Contributes (keeps : Behaviour) (s₀ t : System) (policy : PartialFramePolicy) (k p : Nat)
    (image : Image) : Prop :=
  Delivered keeps s₀ t p k image ∨
    policy = .reuseLastImage ∧
      ∃ j < k, Delivered keeps s₀ t p j image ∧ ∀ l > j, ∀ other, ¬ Delivered keeps s₀ t p l other

theorem Contributes.lt_participantCount {policy : PartialFramePolicy}
    (h : Contributes keeps s₀ t policy k p image) (h₀ : s₀.Sound) :
    p < t.coordinator.participantCount := by
  rcases h with h | ⟨-, j, -, h, -⟩ <;> exact h.lt_participantCount h₀

/-- Whoever has delivered an image for the frame contributes that one. -/
theorem contributes_of_fresh (h₀ : s₀.Sound) (hrun : Run keeps s₀ t) (hahead : ¬ t.Ahead p)
    {policy : PartialFramePolicy} {fresh : Image}
    (hfresh : t.pool.slots.fresh p t.coordinator.frameIndex = some fresh) :
    Contributes keeps s₀ t policy t.coordinator.frameIndex p image ↔ fresh = image := by
  have hdelivered := (delivered_iff h₀ hrun hahead).2 hfresh
  constructor
  · rintro (h | ⟨-, j, hj, -, hlater⟩)
    · rw [delivered_iff h₀ hrun hahead, hfresh] at h
      exact Option.some.inj h
    · exact absurd hdelivered (hlater _ hj _)
  · rintro rfl
    exact .inl hdelivered

/-- Whoever has delivered no image for the frame contributes the latest one, if the policy is to use
it. -/
theorem contributes_of_missing (h₀ : s₀.Sound) (hrun : Run keeps s₀ t) (hahead : ¬ t.Ahead p)
    {policy : PartialFramePolicy} (hmissing : t.pool.slots.fresh p t.coordinator.frameIndex = none) :
    Contributes keeps s₀ t policy t.coordinator.frameIndex p image ↔
      policy = .reuseLastImage ∧ (t.pool.slots.get p).map SlotEntry.image = some image := by
  have hnone : ∀ i, ¬ Delivered keeps s₀ t p t.coordinator.frameIndex i := by
    intro i h
    rw [delivered_iff h₀ hrun hahead, hmissing] at h
    cases h
  rw [Option.map_eq_some_iff]
  constructor
  · rintro (h | ⟨hpolicy, j, -, hj, hlater⟩)
    · exact absurd h (hnone image)
    · obtain ⟨e, he, hle, himage⟩ := hj.latest h₀
      refine ⟨hpolicy, e, he, himage (Nat.le_antisymm hle (Nat.le_of_not_lt fun hlt => ?_))⟩
      exact hlater _ hlt _ (delivered_of_get hrun he)
  · rintro ⟨hpolicy, e, he, rfl⟩
    have hdelivered := delivered_of_get hrun he
    have hlt : e.frame < t.coordinator.frameIndex := by
      refine Nat.lt_of_le_of_ne (Nat.le_of_not_lt fun hlt => hahead ⟨e, he, hlt⟩) fun heq => ?_
      rw [heq] at hdelivered
      exact hnone _ hdelivered
    refine .inr ⟨hpolicy, e.frame, hlt, hdelivered, fun l hl other h => ?_⟩
    obtain ⟨e', he', hle, -⟩ := h.latest h₀
    obtain rfl := Option.some.inj (he.symm.trans he')
    exact absurd hle (Nat.not_le_of_gt hl)

/-- What is gathered from a participant is what it contributes. -/
theorem Found.contribution_iff {x : Nat × Option Image} (h : Found keeps s view t x) (h₀ : s₀.Sound)
    (hrun : Run keeps s₀ s) (hidle : s.phase = .idle) (hcall : Run keeps s t)
    (ht : t.coordinator.frameIndex = s.coordinator.frameIndex + 1) (hahead : ¬ t.Ahead x.1) :
    s.coordinator.begun.contribution x = some image ↔
      Contributes keeps s₀ t s.coordinator.config.policy t.coordinator.frameIndex x.1 image := by
  obtain ⟨hfresh, hkept⟩ := h.fresh (h₀.run hrun) hidle ht hahead
  rw [← ht] at hfresh
  rw [Coordinator.contribution]
  cases hx : x.2 with
  | some fresh =>
    rw [contributes_of_fresh h₀ (hrun.trans hcall) hahead (hfresh.symm.trans hx)]
    exact Option.some_inj
  | none =>
    rw [contributes_of_missing h₀ (hrun.trans hcall) hahead (hfresh.symm.trans hx), ← hkept hx,
      Option.none_or]
    change (if s.coordinator.config.policy = .reuseLastImage then s.coordinator.lastImages[x.1]?.join
      else none) = some image ↔ _
    by_cases hpolicy : s.coordinator.config.policy = .reuseLastImage
    · rw [if_pos hpolicy]
      exact ⟨fun h => ⟨hpolicy, h⟩, And.right⟩
    · rw [if_neg hpolicy]
      constructor
      · intro h
        cases h
      · intro h
        exact absurd h.1 hpolicy

/-! ### Frames that are shown -/

/-- The frame that the call of `view` from `s` to `t` has shown is made of the images in `made`, and
`stats` accounts for it. A participant that has delivered images for later frames may be left out, or
contribute an older image than it has to. -/
structure Accounted (keeps : Behaviour) (s₀ s : System) (view : View) (t : System) (stats : FrameStats)
    (made : List (Nat × Image)) : Prop where
  frame : stats.frame = s.coordinator.frameIndex + 1
  total : stats.composited + stats.reused + stats.skipped = s.coordinator.participantCount
  order : stats.order.Sublist
    (s.coordinator.partition.ordered view.eye s.coordinator.compositor.order)
  shown : stats.order.length = stats.composited + stats.reused
  participants : made.map Prod.fst = stats.order
  composite : s.coordinator.compositor.composite s.coordinator.framebuffer s.coordinator.config.background
    (made.map Prod.snd) = .ok t.coordinator.framebuffer
  delivered : ∀ p image, (p, image) ∈ made →
    Delivered keeps s₀ t p (s.coordinator.frameIndex + 1) image ∨
      s.coordinator.config.policy = .reuseLastImage ∧
        ∃ j ≤ s.coordinator.frameIndex, Delivered keeps s₀ t p j image
  contributed : ∀ p image, ¬ t.Ahead p → ((p, image) ∈ made ↔
    Contributes keeps s₀ t s.coordinator.config.policy (s.coordinator.frameIndex + 1) p image)
  composited : (∀ p, ¬ t.Ahead p) → stats.composited =
    (List.range s.coordinator.participantCount).countP fun p =>
      t.pool.slots.isFresh p (s.coordinator.frameIndex + 1)
  evicted : stats.evicted.Nodup
  lost : stats.lost.Nodup
  disjoint : stats.evicted.Disjoint stats.lost
  shut : ∀ p, p ∈ stats.evicted ∨ p ∈ stats.lost → t.Shut p

variable {found : List (Nat × Option Image)} {g : Gathering} {d : Coordinator}

theorem Harvest.found_perm (h : Harvest keeps s view t found [] g d) (hs : s.Sound) :
    (found.map Prod.fst).Perm (List.range s.coordinator.participantCount) := by
  have horder := h.order
  rw [List.append_nil] at horder
  rw [← horder]
  exact hs.order view.eye

/-- As many images are new as participants have delivered one. -/
theorem Harvest.composited (h : Harvest keeps s view t found [] g d) (hs : s.Sound)
    (hidle : s.phase = .idle) (ht : t.coordinator.frameIndex = s.coordinator.frameIndex + 1)
    (hahead : ∀ p, ¬ t.Ahead p) :
    g.composited = (List.range s.coordinator.participantCount).countP fun p =>
      t.pool.slots.isFresh p (s.coordinator.frameIndex + 1) := by
  rw [h.gathered.accounts.composited, ← (h.found_perm hs).countP_eq, List.countP_map]
  refine List.countP_congr fun x hx => ?_
  rw [((h.found x hx).fresh hs hidle ht (hahead x.1)).1]
  rfl

/-- Whatever is gathered was delivered, by whoever it is taken for. -/
theorem Harvest.delivered (h : Harvest keeps s view t found [] g d)
    (hnone : ∀ p : Nat, s₀.coordinator.lastImages[p]?.join = none) (hrun : Run keeps s₀ s)
    (hidle : s.phase = .idle) (hcall : Run keeps s t)
    (hmade : (p, image) ∈ s.coordinator.begun.made found) :
    Delivered keeps s₀ t p (s.coordinator.frameIndex + 1) image ∨
      s.coordinator.config.policy = .reuseLastImage ∧
        ∃ j ≤ s.coordinator.frameIndex, Delivered keeps s₀ t p j image := by
  obtain ⟨x, hx, rfl, himage⟩ := Coordinator.mem_made.1 hmade
  rw [Coordinator.contribution, Option.or_eq_some_iff] at himage
  rcases himage with hfound | ⟨-, hkept⟩
  · obtain ⟨u, hu, hw, hfresh⟩ := (h.found x hx).delivers hfound
    exact .inl ((delivered_of_get (hrun.trans (hu.call hidle)) (get_of_fresh hfresh)).trans hw.toRun)
  · split at hkept
    · rename_i hpolicy
      obtain ⟨j, hj, hdelivered⟩ := delivered_of_kept hnone hrun hkept
      exact .inr ⟨hpolicy, j, hj, hdelivered.trans hcall⟩
    · cases hkept

/-- Every participant that has delivered no image for later frames is taken into account as it
contributes. -/
theorem Harvest.mem_made (h : Harvest keeps s view t found [] g d) (h₀ : s₀.Sound)
    (hrun : Run keeps s₀ s) (hidle : s.phase = .idle) (hcall : Run keeps s t)
    (ht : t.coordinator.frameIndex = s.coordinator.frameIndex + 1) (hahead : ¬ t.Ahead p) :
    (p, image) ∈ s.coordinator.begun.made found ↔
      Contributes keeps s₀ t s.coordinator.config.policy t.coordinator.frameIndex p image := by
  have hiff : ∀ x ∈ found, x.1 = p → (s.coordinator.begun.contribution x = some image ↔
      Contributes keeps s₀ t s.coordinator.config.policy t.coordinator.frameIndex p image) := by
    rintro x hx rfl
    exact (h.found x hx).contribution_iff h₀ hrun hidle hcall ht hahead
  rw [Coordinator.mem_made]
  constructor
  · rintro ⟨x, hx, rfl, himage⟩
    exact (hiff x hx rfl).1 himage
  · intro hp
    have hlt := hp.lt_participantCount h₀
    rw [hcall.participantCount, ← List.mem_range, ← (h.found_perm (h₀.run hrun)).mem_iff] at hlt
    obtain ⟨x, hx, rfl⟩ := List.mem_map.1 hlt
    exact ⟨x, hx, rfl, (hiff x hx rfl).2 hp⟩

/-- A frame of which everything was gathered, and which was shown, is accounted for. -/
theorem Harvest.accounted {evicted lost : List Nat} (h : Harvest keeps s view t found [] g d)
    (h₀ : s₀.Sound) (hnone : ∀ p : Nat, s₀.coordinator.lastImages[p]?.join = none) (hrun : Run keeps s₀ s)
    (hidle : s.phase = .idle) (hcall : Run keeps s t)
    (ht : t.coordinator.frameIndex = s.coordinator.frameIndex + 1)
    (hshown : s.coordinator.compositor.composite s.coordinator.framebuffer
      s.coordinator.config.background g.images = .ok t.coordinator.framebuffer)
    (hnodup : (evicted ++ lost).Nodup) (hshut : ∀ p ∈ evicted ++ lost, t.Shut p) :
    Accounted keeps s₀ s view t {
      frame := s.coordinator.frameIndex + 1, order := g.order, eye := view.eye,
      composited := g.composited, reused := g.reused, skipped := g.skipped, evicted, lost }
      (s.coordinator.begun.made found) := by
  have hs := h₀.run hrun
  have haccounts := h.gathered.accounts
  obtain ⟨hevicted, hlost, hdisjoint⟩ := List.nodup_append'.1 hnodup
  constructor
  case frame => rfl
  case total =>
    have hlength := (h.found_perm hs).length_eq
    rw [List.length_map, List.length_range] at hlength
    rw [← hlength]
    exact haccounts.counted
  case order =>
    have horder := h.order
    rw [List.append_nil] at horder
    rw [horder, haccounts.order]
    exact List.filter_sublist.map _
  case shown => exact haccounts.shown.symm
  case participants => exact haccounts.made_fst
  case composite =>
    rw [haccounts.made_snd]
    exact hshown
  case delivered => exact fun p image => h.delivered hnone hrun hidle hcall
  case contributed =>
    intro p image hahead
    rw [← ht]
    exact h.mem_made h₀ hrun hidle hcall ht hahead
  case composited => exact h.composited hs hidle ht
  case evicted => exact hevicted
  case lost => exact hlost
  case disjoint => exact hdisjoint
  case shut => exact fun p hp => hshut p (List.mem_append.2 hp)

/-- Whatever participants do, stall or fail at any point, in a cluster that was set up: a frame that is
shown accounts for every participant once. It is the composite of the images that participants contribute,
in the visiting order: those for this frame, and, if the policy is to use them, the latest ones of the
others. Nobody is named twice. Participants that serve sessions are never ahead of the frame. -/
theorem shown_accounted {net : Network} {config : ClusterConfig} {preview : Preview} {plan : Plan}
    {connections : List Connection} {stats : FrameStats}
    (hsetup : (Setup.run net config preview).outcome = .ok (plan, connections))
    (h₀ : System.ofPlan config plan connections = .ok s₀) (hrun : Run keeps s₀ s)
    (hidle : s.phase = .idle) (hcall : Within keeps (s.start (.render view)) t)
    (hend : t.phase = .idle) (hreply : t.replies = s.replies ++ [.frame (.ok stats)]) :
    (∃ made, Accounted keeps s₀ s view t stats made) ∧
      s.coordinator.config.policy = config.policy ∧
      ∀ ps : Participants, ps.Connected s₀ →
        (∀ p accepted sent, keeps p accepted sent → ps.behaviour p accepted sent) → ∀ p, ¬ t.Ahead p := by
  have hsound₀ := sound_of_setup hsetup h₀
  have hs := hsound₀.run hrun
  have hthrough := hcall.call hidle
  refine ⟨?_, ?_, fun ps hps hkeeps => ?_⟩
  · rcases (rendering_of_within hs hidle hcall).1.ended hend with ⟨-, -, hr⟩ |
      ⟨v, evicted, lost, g, found, r, hv, hstep, hph, hharvest, hf, hr⟩ <;>
        obtain ⟨-, hlast⟩ := List.append_inj' (hreply.symm.trans hr) rfl
    · cases hlast
    · obtain rfl := Reply.frame.inj (List.singleton_inj.1 hlast)
      obtain ⟨hnodup, hshut⟩ := (rendering_of_within hs hidle hv).2.named_of_finish hph hstep
      obtain ⟨ht, ⟨-, -, -, hrefused⟩ | ⟨-, hshown, hstats⟩⟩ := hharvest.answers hf
      · cases hrefused
      · cases hstats
        have hnone := fun p => (remembers_of_ofPlan h₀).empty p (get_of_ofPlan h₀ p)
        exact ⟨_, hharvest.accounted hsound₀ hnone hrun hidle hthrough ht hshown hnodup hshut⟩
  · have hfixed := congrArg (fun x => x.2.2) hrun.fixed
    exact hfixed.trans (fixed_of_ofPlan h₀).2.2
  · exact ((conduct_of_connected hps).run ((hrun.trans hthrough).mono hkeeps)).not_ahead

end System

namespace Duo

/-- A frame that nobody misses. -/
def fullFrame : List (System → Option Move) :=
  List.replicate 7 turn ++ arrival 0 ++ arrival 1 ++ List.replicate 5 turn

/-- After that the workers read on, and participant 1 misses the next frame. -/
def nextFrame : List (System → Option Move) :=
  [fun _ => some (.worker 0), fun _ => some (.worker 1)] ++ missedFrame

end Duo

/-- The frame that is answered. -/
def Reply.stats? : Reply → Option FrameStats
  | frame (.ok stats) => some stats
  | _ => none

namespace System

/-- Participant 1 misses the second frame, and contributes its image for the first one. -/
theorem shown_accounted_reused : ∃ s₀ s t stats made, Duo.startOf Duo.config = some s₀ ∧
    (s₀.start (.render .default)).follow Duo.participants Duo.fullFrame = some s ∧
    (s.start (.render .default)).follow Duo.participants Duo.nextFrame = some t ∧
    Accounted Duo.participants.behaviour s₀ s .default t stats made ∧ stats.order = [1, 0] ∧
    stats.composited = 1 ∧ stats.reused = 1 ∧ stats.evicted = [1] ∧ ∀ p, ¬ t.Ahead p := by
  have hrun : ((Duo.startOf Duo.config).bind fun s₀ =>
      ((s₀.start (.render .default)).follow Duo.participants Duo.fullFrame).bind fun s =>
        ((s.start (.render .default)).follow Duo.participants Duo.nextFrame).map fun t =>
          ([s₀.phase, s.phase, t.phase], [s.replies.filterMap Reply.stats?,
            t.replies.filterMap Reply.stats?])) =
      some ([.idle, .idle, .idle], [[⟨1, [1, 0], View.default.eye, 2, 0, 0, [], []⟩],
        [⟨1, [1, 0], View.default.eye, 2, 0, 0, [], []⟩,
          ⟨2, [1, 0], View.default.eye, 1, 1, 0, [1], []⟩]]) := by decide +kernel
  obtain ⟨s₀, hs₀, hrun⟩ := Option.bind_eq_some_iff.1 hrun
  obtain ⟨s, hfirst, hrun⟩ := Option.bind_eq_some_iff.1 hrun
  obtain ⟨t, hsecond, hrun⟩ := Option.map_eq_some_iff.1 hrun
  simp only [Prod.mk.injEq, List.cons.injEq, and_true] at hrun
  obtain ⟨⟨hidle₀, hidle, hend⟩, hbefore, hafter⟩ := hrun
  obtain ⟨plan, connections, hsetup, h₀⟩ := Duo.setup_of_startOf hs₀
  have hthrough := (follow_within hfirst).call hidle₀
  have hcall := follow_within hsecond
  obtain ⟨r, hr⟩ : ∃ r, t.replies = s.replies ++ [.frame r] := by
    rcases (rendering_of_within ((sound_of_setup hsetup h₀).run hthrough) hidle hcall).1.ended hend with
      ⟨-, -, hr⟩ | ⟨_, _, _, _, _, r, _, _, _, _, _, hr⟩ <;> exact ⟨_, hr⟩
  rw [hr, List.filterMap_append, hbefore] at hafter
  have hlast := (List.cons.inj hafter).2
  cases r with
  | error e => cases hlast
  | ok stats =>
    cases hlast
    obtain ⟨⟨made, haccounted⟩, -, hahead⟩ :=
      shown_accounted hsetup h₀ hthrough hidle hcall hend hr
    exact ⟨s₀, s, t, _, made, hs₀, hfirst, hsecond, haccounted, rfl, rfl, rfl, rfl,
      hahead Duo.participants (Duo.connected_of_startOf hs₀) fun _ _ _ => id⟩

/-- A participant answers one camera with two images. It has delivered for the frame and is live, and yet
the frame is shown without it. -/
theorem shown_accounted_ahead : ∃ s t stats image, Duo.startOf Duo.config = some s ∧ s.phase = .idle ∧
    Within anything (s.start (.render .default)) t ∧ t.phase = .idle ∧
    t.replies.filterMap Reply.stats? = s.replies.filterMap Reply.stats? ++ [stats] ∧
    Delivered anything s t 0 stats.frame image ∧ stats.order = [1] ∧ stats.composited = 1 ∧
    stats.reused = 0 ∧ stats.skipped = 1 ∧ t.liveParticipants = [0, 1] := by
  have hrun : ((Duo.startOf Duo.config).bind fun s =>
      ((s.start (.render .default)).play Duo.surplus).bind fun u => (u.play Duo.overtaking).bind fun t =>
        (u.pool.slots.fresh 0 1).map fun _ => ([s.phase, t.phase],
          [s.replies.filterMap Reply.stats?, t.replies.filterMap Reply.stats?], t.liveParticipants)) =
      some ([.idle, .idle], [[], [⟨1, [1], View.default.eye, 1, 0, 1, [], []⟩]], [0, 1]) := by
    decide +kernel
  obtain ⟨s, hs, hrun⟩ := Option.bind_eq_some_iff.1 hrun
  obtain ⟨u, hu, hrun⟩ := Option.bind_eq_some_iff.1 hrun
  obtain ⟨t, ht, hrun⟩ := Option.bind_eq_some_iff.1 hrun
  obtain ⟨image, hfresh, hrun⟩ := Option.map_eq_some_iff.1 hrun
  simp only [Prod.mk.injEq, List.cons.injEq, and_true] at hrun
  obtain ⟨⟨hidle, hend⟩, ⟨hbefore, hafter⟩, hlive⟩ := hrun
  have hcalled := (play_within hu).call hidle
  refine ⟨s, t, ⟨1, [1], View.default.eye, 1, 0, 1, [], []⟩, image, hs, hidle,
    (play_within hu).trans (play_within ht), hend, ?_,
    (delivered_of_get hcalled (get_of_fresh hfresh)).trans (play_within ht).toRun, rfl, rfl, rfl, rfl, hlive⟩
  rw [hbefore, hafter]
  rfl

end System
end SortLast
