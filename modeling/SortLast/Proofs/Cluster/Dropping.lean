import SortLast.Proofs.Cluster.Accounting
import SortLast.Proofs.Cluster.Shutdown

/-!
# Participants that are named in two frames

A participant that misses a frame is dropped: its connection is closed, and its worker takes that for a
failure, which it reports once. So whoever is named in a frame is named for good, unless its worker had
the image in hand already when the time ran out. Then the image is delivered after all, the worker goes
on, and the failure counts for a later frame.

* `Pool.Abreast`: workers have delivered for all generations that are complete, or have exited.
* `System.Gone`: a worker whose report was taken; `System.Gone.run`.
* `Phase.named`: who is named in a frame; `System.Gone.not_named`.
* `System.Late`: who has delivered for the last frame; `System.Dismisses`: what became of those named.
* `System.exists_delivered`: images are delivered for one frame after the other.
* `System.Shows`: a call that shows a frame; `System.named_again`: whatever participants do.
-/

namespace SortLast

/-! ### Workers and generations -/

/-- Who is not awaited when a generation completes has delivered for it, or has exited. -/
theorem Worker.Fits.delivered_of_present {w : Worker} {g : Nat} (h : w.Fits g)
    (hw : w.phase.isAbsent g = false) : w.phase = .exited ∨ g + 1 ≤ w.delivered := by
  unfold Worker.Fits at h
  cases hph : w.phase with
  | exited => exact .inl rfl
  | waiting k =>
    rw [hph] at h hw
    obtain rfl : k = g := by simpa [WorkerPhase.isAbsent] using hw
    exact .inr (Nat.le_of_eq h.2.1.symm)
  | _ =>
    rw [hph] at hw
    cases hw

namespace Pool

variable {p p' : Pool} {q c : Nat} {w : Worker}

/-- Every worker has delivered for all generations that are complete, or has exited. -/
def Abreast (p : Pool) : Prop :=
  ∀ (r : Nat) (u : Worker), p.workers[r]? = some u →
    u.phase = .exited ∨ p.barrier.generation ≤ u.delivered

/-- The arrival of the coordinator completes a generation only if nobody is absent. -/
theorem Musters.absences_of_leader (h : p.Musters 0) {b : Barrier}
    (ha : p.barrier.arrive = (.returns .leader, b)) :
    p.absences p.barrier.generation = 0 ∧ b.generation = p.barrier.generation + 1 := by
  have hsum := p.attending_eq p.barrier.generation
  rcases h.tallies.arrive (by omega) with ⟨hcard, hb⟩ | ⟨-, b', hb, -⟩
  · cases ha.symm.trans hb
    exact ⟨by omega, rfl⟩
  · cases ha.symm.trans hb

/-- One worker moves. If a generation completes by that, everybody else is at the barrier, or has
exited. -/
theorem Abreast.put (ha : p.Abreast) (h : p.Musters c) (hq : p.workers[q]? = some w) {v : Worker}
    {b : Barrier} (hv : v.phase = .exited ∨ b.generation ≤ v.delivered)
    (hb : b.generation = p.barrier.generation ∨ w.phase.isAbsent p.barrier.generation ∧
      p.absences p.barrier.generation = 1 ∧ b.generation = p.barrier.generation + 1) :
    ({ p with barrier := b }.put q v).Abreast := by
  show ∀ (r : Nat) (u : Worker), (p.put q v).workers[r]? = some u →
    u.phase = .exited ∨ b.generation ≤ u.delivered
  refine forall_put (fun r u hr hu => ?_) hv
  rcases hb with hb | ⟨habsent, hone, hb⟩ <;> rw [hb]
  · exact ha r u hu
  · exact (h.fits r u hu).delivered_of_present (isAbsent_of_ne hq habsent hone hr hu)

/-- The cases are the steps of a worker. -/
theorem Abreast.works (ha : p.Abreast) (h : p.Musters c) (hq : p.workers[q]? = some w)
    (hw : p.Works q w p') : p'.Abreast := by
  cases hw with
  | pass v events habsent _ _ hdelivered =>
    refine ha.put (b := p.barrier) h hq (.inr ?_) (.inl rfl)
    rw [hdelivered]
    refine (ha q w hq).resolve_left fun hexited => ?_
    rw [hexited] at habsent
    cases habsent
  | store hph =>
    have hdelivered := ((h.fits q w hq).storing hph).2
    exact ha.put (b := p.barrier) h hq (.inr (Nat.le_succ_of_le hdelivered.ge)) (.inl rfl)
  | lead hph harrive =>
    have habsent : w.phase.isAbsent p.barrier.generation := by rw [hph]; rfl
    have hdelivered := ((h.fits q w hq).arriving hph).2
    obtain ⟨hlt, hlast⟩ := h.lt_of_absent hq habsent
    rcases h.tallies.arrive hlt with ⟨hcard, hb⟩ | ⟨-, _, hb, -⟩
    · cases harrive.symm.trans hb
      exact ha.put h hq (.inr hdelivered.ge) (.inr ⟨habsent, (hlast hcard).2, rfl⟩)
    · cases harrive.symm.trans hb
  | @join b hph harrive =>
    have hdelivered := ((h.fits q w hq).arriving hph).2
    have hsame : b.generation = p.barrier.generation := by
      rcases p.barrier.arrive_generation with hsame | hleader
      · rwa [harrive] at hsame
      · cases harrive.symm.trans hleader
    refine ha.put h hq (.inr ?_) (.inl hsame)
    rw [hsame]
    exact Nat.le_of_succ_le hdelivered.ge
  | leave hph =>
    have habsent : w.phase.isAbsent p.barrier.generation := by rw [hph]; rfl
    obtain ⟨hlt, hlast⟩ := h.lt_of_absent hq habsent
    refine ha.put h hq (.inl rfl) ?_
    rcases h.tallies.leave hlt with ⟨-, hcard, hb, -⟩ | ⟨hb, -⟩
    · exact .inr ⟨habsent, (hlast hcard).2, hb⟩
    · exact .inl hb

theorem abreast_ofInboxes (inboxes : List Inbox) : (ofInboxes inboxes).Abreast :=
  fun _ _ _ => .inr (Nat.zero_le _)

end Pool

namespace System

variable {s s₀ t u : System} {keeps : Behaviour} {view : View} {p k : Nat}

/-- A generation completes by the step of a worker, or by the arrival of the coordinator. -/
theorem abreast_of_step (h : s.pool.Abreast) (hs : s.Attends) (hstep : Step keeps s t) :
    t.pool.Abreast := by
  rcases step_tends hstep with ht | ⟨q, pool, hpool, rfl⟩
  · intro r v hv
    obtain ⟨w, hw, hkeeps⟩ := Pool.exists_keeps ht.workers hv
    rw [hkeeps.phase, hkeeps.delivered]
    rcases ht.counts with hsame | ⟨hstands, harrive⟩
    · rw [hsame]
      exact h r w hw
    · have hmuster := hs.muster
      rw [hstands] at hmuster
      obtain ⟨hnone, hnext⟩ := hmuster.absences_of_leader harrive
      rw [hnext]
      refine (hmuster.fits r w hw).delivered_of_present ?_
      exact Bool.eq_false_iff.2 (List.countP_eq_zero.1 hnone w (List.mem_of_getElem? hw))
  · obtain ⟨w, w', stored, hw, -⟩ := Pool.step_spec hpool
    exact h.works hs.muster hw
      (Pool.works_of_step hs.muster.tallies.opened hw (hs.muster.fits q w hw) hpool)

/-! ### Reports that were taken -/

/-- The participant's worker has reported its failure, or has none to report, and no report of it is still
to be taken. -/
structure Gone (s : System) (p : Nat) : Prop where
  reported : s.HasReported p
  taken : p ∉ s.reported

theorem Gone.step (h : s.Gone p) (hstep : Step keeps s t) : t.Gone p := by
  refine ⟨h.reported.step hstep, fun hp => ?_⟩
  rcases step_tends hstep with ht | ⟨q, pool, hpool, rfl⟩
  · exact h.taken (ht.reported.subset hp)
  · rcases reported_worker hpool with hsame | ⟨hopen, -, hmore⟩
    · exact h.taken (hsame ▸ hp)
    · rw [hmore] at hp
      rcases List.mem_append.1 hp with hp | hp
      · exact h.taken hp
      · obtain rfl := List.mem_singleton.1 hp
        exact hopen h.reported

theorem Gone.run (h : s.Gone p) (hrun : Run keeps s t) : t.Gone p := by
  induction hrun with
  | refl => exact h
  | tail _ hstep ih => exact ih.step hstep

theorem Gone.not_alive (h : s.Gone p) (hs : s.Attends) : s.pool.isAlive p = false := by
  obtain ⟨w, hw, hr⟩ := h.reported
  have hfits := hs.muster.fits p w hw
  rw [Pool.isAlive, hw]
  unfold Worker.Fits at hfits
  rcases hr with hph | hph <;> rwa [hph] at hfits

end System

/-! ### Who is named -/

/-- Those who are named in the frame, or about to be. -/
def Phase.named : Phase → List Nat
  | judging _ _ evicted | evicting _ _ evicted | rejoining _ evicted | reawaiting _ evicted _ => evicted
  | checking _ next evicted => next :: evicted
  | collecting _ evicted failed => evicted ++ failed
  | gathering _ evicted lost .. => evicted ++ lost
  | _ => []

theorem Phase.Spares.named {f : Phase} (h : f.Spares) : f.named = [] := by
  cases f <;> first | exact h.elim | rfl

theorem Phase.named_of_met? {f : Phase} {evicted : List Nat} (h : f.met? = some evicted) :
    f.named = evicted := by
  cases f with
  | meeting | awaiting | rejoining | reawaiting =>
    cases h
    rfl
  | _ => cases h

namespace System

variable {s s₀ t u : System} {keeps : Behaviour} {view : View} {p k : Nat}

/-- Only a participant whose worker has not noted its end is judged, and only one whose report is taken
is lost. -/
theorem Judges.not_named (h : Judges s t) (hs : s.Sound) (hp : s.Gone p) (hnot : p ∉ s.phase.named) :
    p ∉ t.phase.named := by
  cases h with
  | meet _ ht | timeout _ ht =>
    rw [ht]
    exact List.not_mem_nil
  | complete hmet ht =>
    rw [Phase.named_of_met? hmet] at hnot
    rw [ht, Phase.named, List.append_nil]
    exact hnot
  | @judge view next evicted hph _ ht =>
    have hopen := hs.opened (by rw [hph]; exact id)
    rw [hph] at hnot
    rcases ht with ⟨halive, ht⟩ | ht
    · rw [ht]
      refine List.not_mem_cons_of_ne_of_not_mem (fun heq => ?_) hnot
      rw [← heq, hp.not_alive (hs.attends hopen)] at halive
      cases halive
    · rw [ht]
      exact hnot
  | @check view next evicted hph ht =>
    rw [hph] at hnot
    obtain ⟨hne, hnot⟩ := List.ne_and_not_mem_of_not_mem_cons hnot
    rcases ht with ht | ht
    · rw [ht]
      exact hnot
    · rw [ht, Phase.named, List.mem_append, List.mem_singleton]
      exact fun hmem => hmem.elim hnot hne
  | decide hph ht | evict hph ht | «return» hph ht | rejoin hph ht =>
    rw [hph] at hnot
    rw [ht]
    exact hnot
  | @report view evicted failed q hph ht hmem =>
    rw [hph] at hnot
    rw [ht, Phase.named, ← List.append_assoc, List.mem_append, List.mem_singleton]
    rintro (hmem' | rfl)
    · exact hnot hmem'
    · exact hp.taken hmem
  | collect hph ht =>
    rw [hph] at hnot
    rw [ht, Phase.named, List.mem_append]
    rintro (hmem | hmem)
    · exact hnot (List.mem_append_left _ hmem)
    · exact hnot (List.mem_append_right _ (List.mem_filter.1 hmem).1)

/-- Whoever is gone is not named any more. -/
theorem Gone.not_named (hp : s.Gone p) (hs : s.Sound) (hnot : p ∉ s.phase.named) (hstep : Step keeps s t) :
    p ∉ t.phase.named := by
  cases step_naming hstep with
  | judges _ hjudges => exact hjudges.not_named hs hp hnot
  | gathers hph hu =>
    rw [hph] at hnot
    rw [hu]
    exact hnot
  | spares hspares =>
    rw [hspares.named]
    exact List.not_mem_nil
  | stays hph =>
    rw [hph]
    exact hnot

theorem Gone.not_named_within (hp : s.Gone p) (hs : s.Sound) (hnot : p ∉ s.phase.named)
    (h : Within keeps s t) : p ∉ t.phase.named := by
  induction h with
  | refl => exact hnot
  | tail hw _ hstep ih => exact (hp.run hw.toRun).not_named (hs.run hw.toRun) ih hstep

/-! ### What becomes of those who are named -/

/-- The participant has delivered for the last frame. -/
def Late (s : System) (p : Nat) : Prop :=
  ∃ a, s.Sits p a ∧ s.coordinator.frameIndex ≤ a.worker.delivered

theorem Late.step (h : s.Late p) (hstep : Step keeps s t)
    (hframe : t.coordinator.frameIndex = s.coordinator.frameIndex) : t.Late p := by
  obtain ⟨a, ha, hle⟩ := h
  obtain ⟨may, hc⟩ := hstep.changes
  obtain ⟨b, hb, hseat⟩ := hc.seat p a ha
  exact ⟨b, hb, hframe.trans_le (hle.trans hseat.delivered_le)⟩

end System

/-- Whoever is named when images are taken is gone, or is dropped and late. -/
def Phase.Dismisses (gone late : Nat → Prop) : Phase → Prop
  | gathering _ evicted lost .. => (∀ p ∈ lost, gone p) ∧ ∀ p ∈ evicted, gone p ∨ late p
  | _ => True

theorem Phase.Spares.dismisses {f : Phase} {gone late : Nat → Prop} (h : f.Spares) :
    f.Dismisses gone late := by
  cases f <;> first | exact h.elim | trivial

theorem Phase.Dismisses.mono {f : Phase} {gone gone' late late' : Nat → Prop}
    (h : f.Dismisses gone late) (hgone : ∀ p, gone p → gone' p) (hlate : ∀ p, late p → late' p) :
    f.Dismisses gone' late' := by
  cases f with
  | gathering =>
    exact ⟨fun p hp => hgone p (h.1 p hp), fun p hp => (h.2 p hp).imp (hgone p) (hlate p)⟩
  | _ => trivial

namespace System

variable {s s₀ t u : System} {keeps : Behaviour} {view : View} {p k : Nat}

/-- Whoever is named in the frame is gone, or is dropped and late. -/
def Dismisses (s : System) : Prop := s.phase.Dismisses s.Gone s.Late

/-- When images are taken, all reports have been, and the generation of the frame is complete: whoever was
dropped has exited, or has delivered for it. -/
theorem Judges.dismisses (h : Judges s t) (hs : s.Sound) (ht : t.Sound)
    (habreast : t.pool.barrier.closed = false → t.pool.Abreast) (hstep : Step keeps s t) :
    t.Dismisses := by
  cases h with
  | collect hph hu hevents =>
    have hopen := ht.opened (by rw [hu]; exact id)
    have hcounted := (ht.attends hopen).counted
    have hjudged := ht.judged
    rw [hu] at hcounted
    rw [Judged, hu] at hjudged
    have hgone : ∀ p, t.HasReported p → t.Gone p := by
      refine fun p hp => ⟨hp, ?_⟩
      rw [reported, hu, hevents]
      exact List.not_mem_nil
    rw [Dismisses, hu]
    constructor
    · intro p hp
      refine hgone p ((hs.reports.gone p ?_).step hstep)
      rw [reported, hph]
      exact List.mem_append_left _ (List.mem_filter.1 hp).1
    · intro p hp
      obtain ⟨hlt, -⟩ := hjudged.2 p (List.mem_append_left _ hp)
      obtain ⟨a, ha⟩ := ht.steady.seated p hlt
      rcases habreast hopen p a.worker ha.worker with hexited | hle
      · exact .inl (hgone p ⟨a.worker, ha.worker, .inr hexited⟩)
      · exact .inr ⟨a, ha, le_of_eq_of_le hcounted hle⟩
  | judge _ _ hu =>
    rw [Dismisses]
    rcases hu with ⟨-, hu⟩ | hu <;> rw [hu] <;> trivial
  | check _ hu =>
    rw [Dismisses]
    rcases hu with hu | hu <;> rw [hu] <;> trivial
  | meet _ hu | complete _ hu | timeout _ hu | decide _ hu | evict _ hu | «return» _ hu | rejoin _ hu
  | report _ hu =>
    rw [Dismisses, hu]
    trivial

theorem Dismisses.step (hd : s.Dismisses) (hs : s.Sound) (ht : t.Sound)
    (habreast : t.pool.barrier.closed = false → t.pool.Abreast) (hstep : Step keeps s t) :
    t.Dismisses := by
  have hgone : ∀ p, s.Gone p → t.Gone p := fun p hp => hp.step hstep
  cases step_naming hstep with
  | judges _ hjudges => exact hjudges.dismisses hs ht habreast hstep
  | gathers hph hu hframe =>
    unfold Dismisses at hd ⊢
    rw [hph] at hd
    rw [hu]
    exact Phase.Dismisses.mono (f := .gathering ..) hd hgone fun p hp => hp.step hstep hframe
  | spares hspares => exact hspares.dismisses
  | stays hph same =>
    unfold Dismisses at hd ⊢
    rw [hph]
    exact hd.mono hgone fun p hp => hp.step hstep same.frameIndex

/-- In every state of a cluster that was set up, workers keep up with the barrier while it is open, and
whoever is named is gone or late. -/
theorem dismisses_of_run {net : Network} {config : ClusterConfig} {preview : Preview} {plan : Plan}
    {connections : List Connection}
    (hsetup : (Setup.run net config preview).outcome = .ok (plan, connections))
    (h₀ : System.ofPlan config plan connections = .ok s₀) (hrun : Run keeps s₀ s) :
    (s.pool.barrier.closed = false → s.pool.Abreast) ∧ s.Dismisses := by
  have hsound₀ := sound_of_setup hsetup h₀
  induction hrun with
  | refl =>
    obtain ⟨-, -, hpool, hphase, -⟩ := ofPlan_eq h₀
    refine ⟨fun _ => ?_, ?_⟩
    · rw [hpool]
      exact Pool.abreast_ofInboxes _
    · rw [Dismisses, hphase]
      trivial
  | @tail s t hrun hstep ih =>
    have hs := hsound₀.run hrun
    have habreast : t.pool.barrier.closed = false → t.pool.Abreast := by
      intro hopen
      have hwas : s.pool.barrier.closed = false := Bool.eq_false_iff.2 fun hclosed => by
        rw [closed_of_step hclosed hstep] at hopen
        cases hopen
      exact abreast_of_step (ih.1 hwas) (hs.attends hwas) hstep
    exact ⟨habreast, ih.2.step hs (hs.step hstep) habreast hstep⟩

/-! ### Images that were delivered -/

/-- Images are delivered for one frame after the other. -/
theorem exists_delivered (h₀ : s₀.Sound) (hnone : ∀ a, s₀.Sits p a → a.worker.delivered = 0)
    (hrun : Run keeps s₀ t) {a : Seat} (ha : t.Sits p a) (hk : 0 < k) (hle : k ≤ a.worker.delivered) :
    ∃ image, Delivered keeps s₀ t p k image := by
  induction hrun generalizing a with
  | refl =>
    have hzero := hnone a ha
    omega
  | @tail t u hrun hstep ih =>
    obtain ⟨may, hc⟩ := hstep.changes
    obtain ⟨b, hb, hseat⟩ := hc.back (h₀.run hrun).steady.seated ha
    have hearlier : k ≤ b.worker.delivered → ∃ image, Delivered keeps s₀ u p k image := by
      intro hle
      obtain ⟨image, hdelivered⟩ := ih hb hle
      exact ⟨image, hdelivered.trans ((Run.refl t).tail hstep)⟩
    rcases hseat.stored with ⟨-, hsame⟩ | ⟨image, -, hslot, hmore⟩
    · exact hearlier (hsame ▸ hle)
    · by_cases hlast : k = b.worker.delivered + 1
      · exact ⟨image, u, hrun.tail hstep, .refl u, by rw [ha.get, hslot, hlast]⟩
      · exact hearlier (by omega)

/-! ### Calls that show frames -/

/-- The call of `view` in `s` has ended in `t`, and shows a frame. -/
structure Shows (keeps : Behaviour) (s : System) (view : View) (t : System) (stats : FrameStats) :
    Prop where
  idle : s.phase = .idle
  call : Within keeps (s.start (.render view)) t
  ended : t.phase = .idle
  reply : t.replies = s.replies ++ [.frame (.ok stats)]

variable {stats stats' : FrameStats}

/-- The frame has named those that its last phase names. -/
theorem Shows.finished (h : Shows keeps s view t stats) (hs : s.Sound) :
    ∃ v g, Within keeps (s.start (.render view)) v ∧ Step keeps v t ∧
      v.phase = .gathering view stats.evicted stats.lost [] g ∧
      v.coordinator.frameIndex = stats.frame ∧ 0 < stats.frame := by
  rcases (rendering_of_within hs h.idle h.call).1.ended h.ended with ⟨-, -, hr⟩ |
    ⟨v, evicted, lost, g, found, r, hv, hstep, hph, hharvest, hf, hr⟩ <;>
      obtain ⟨-, hlast⟩ := List.append_inj' (h.reply.symm.trans hr) rfl
  · cases hlast
  · obtain rfl := Reply.frame.inj (List.singleton_inj.1 hlast)
    obtain ⟨-, ⟨-, -, -, hrefused⟩ | ⟨-, -, hstats⟩⟩ := hharvest.answers hf
    · cases hrefused
    · cases hstats
      obtain ⟨lastImages, hbooks, -⟩ := hharvest.gathered.coordinator
      have hframe := congrArg Coordinator.frameIndex hbooks
      exact ⟨v, g, hv, hstep, hph, hframe, Nat.succ_pos _⟩

/-- Whoever is gone before a call is not named in its frame. -/
theorem Shows.not_named (h : Shows keeps s view t stats) (hs : s.Sound) (hp : s.Gone p) :
    p ∉ stats.evicted ++ stats.lost := by
  obtain ⟨v, g, hv, -, hph, -⟩ := h.finished hs
  have hstep : Step keeps s (s.start (.render view)) := step_start h.idle _
  have hnot := (hp.step hstep).not_named_within (hs.step hstep) List.not_mem_nil hv
  rwa [hph] at hnot

/-- Whatever participants do, stall or fail at any point, in a cluster that was set up: whoever is named in
two frames was dropped from the first of them and not lost, and has delivered an image for it all the
same. In one frame nobody is named twice. -/
theorem named_again {net : Network} {config : ClusterConfig} {preview : Preview} {plan : Plan}
    {connections : List Connection} {s' t' : System} {view' : View}
    (hsetup : (Setup.run net config preview).outcome = .ok (plan, connections))
    (h₀ : System.ofPlan config plan connections = .ok s₀) (hrun : Run keeps s₀ s)
    (h : Shows keeps s view t stats) (hlater : Run keeps t s') (h' : Shows keeps s' view' t' stats') :
    (stats.evicted ++ stats.lost).Nodup ∧
      ∀ p ∈ stats.evicted ++ stats.lost, p ∈ stats'.evicted ++ stats'.lost →
        p ∈ stats.evicted ∧ p ∉ stats.lost ∧ ∃ image, Delivered keeps s₀ t p stats.frame image := by
  have hsound₀ := sound_of_setup hsetup h₀
  have hs := hsound₀.run hrun
  have hs' := hs.run ((h.call.call h.idle).trans hlater)
  obtain ⟨v, g, hv, hstep, hph, hframe, hpos⟩ := h.finished hs
  have hbefore := hrun.trans (hv.call h.idle)
  have hsound := hsound₀.run hbefore
  have hnodup := (hsound.named_of_finish hph hstep).1
  have hlast : Run keeps v t := (Run.refl v).tail hstep
  obtain ⟨-, hdismisses⟩ := dismisses_of_run hsetup h₀ hbefore
  rw [Dismisses, hph] at hdismisses
  have hnever : ∀ p, v.Gone p → p ∉ stats'.evicted ++ stats'.lost := fun p hp =>
    h'.not_named hs' (hp.run (hlast.trans hlater))
  refine ⟨hnodup, fun p hp hp' => ?_⟩
  -- one that is lost is gone, and so is one that is dropped, unless it is late
  rcases List.mem_append.1 hp with hevicted | hlost
  · refine ⟨hevicted, fun hlost => List.disjoint_of_nodup_append hnodup hevicted hlost, ?_⟩
    obtain ⟨a, ha, hle⟩ := (hdismisses.2 p hevicted).resolve_left fun hgone => hnever p hgone hp'
    rw [hframe] at hle
    have hnone : ∀ b, s₀.Sits p b → b.worker.delivered = 0 := by
      intro b hb
      obtain ⟨c, -, rfl⟩ := hb.exists_connection h₀
      rfl
    obtain ⟨image, hdelivered⟩ := exists_delivered hsound₀ hnone hbefore ha hpos hle
    exact ⟨image, hdelivered.trans hlast⟩
  · exact absurd hp' (hnever p (hdismisses.1 p hlost))

/-- A call that ends and adds the account of a frame to the replies has shown it. -/
theorem shows_of_within (hs : s.Sound) (hidle : s.phase = .idle)
    (hcall : Within keeps (s.start (.render view)) t) (hend : t.phase = .idle)
    (hstats : t.replies.filterMap Reply.stats? = s.replies.filterMap Reply.stats? ++ [stats]) :
    Shows keeps s view t stats := by
  obtain ⟨r, hr⟩ : ∃ r, t.replies = s.replies ++ [.frame r] := by
    rcases (rendering_of_within hs hidle hcall).1.ended hend with
      ⟨-, -, hr⟩ | ⟨_, _, _, _, _, r, _, _, _, _, _, hr⟩ <;> exact ⟨_, hr⟩
  rw [hr, List.filterMap_append] at hstats
  have hlast := List.append_cancel_left hstats
  cases r with
  | error e => cases hlast
  | ok shown =>
    cases hlast
    exact ⟨hidle, hcall, hend, hr⟩

end System

namespace Duo

/-- A frame that participant 0 misses: its worker has received the image, but stores it only after the
connection was closed. -/
def lateFrame : List (System → Option Move) :=
  List.replicate 8 turn ++ (arrival 0).take 2 ++ arrival 1 ++ [fun _ => some .timeout] ++
    List.replicate 8 turn ++ List.replicate 2 (fun _ => some (.worker 0)) ++ List.replicate 5 turn

/-- After that the worker of participant 0 fails, and that of participant 1 takes the next image to the
barrier. -/
def lostFrame : List (System → Option Move) :=
  List.replicate 7 turn ++ List.replicate 5 (fun _ => some (.worker 0)) ++ [fun _ => some (.worker 1)] ++
    arrival 1 ++ List.replicate 6 turn

end Duo

namespace System

/-- Participant 0 is dropped from the first frame, and its image is in this frame all the same. It is lost
in the second one. -/
theorem named_again_late : ∃ s₀ s t stats stats', Duo.startOf Duo.config = some s₀ ∧
    Shows Duo.participants.behaviour s₀ .default s stats ∧
    Shows Duo.participants.behaviour s .default t stats' ∧ stats.evicted = [0] ∧
    stats.composited = 2 ∧ stats'.lost = [0] ∧
    ∃ image, Delivered Duo.participants.behaviour s₀ s 0 1 image := by
  have hrun : ((Duo.startOf Duo.config).bind fun s₀ =>
      ((s₀.start (.render .default)).follow Duo.participants Duo.lateFrame).bind fun s =>
        ((s.start (.render .default)).follow Duo.participants Duo.lostFrame).map fun t =>
          ([s₀.phase, s.phase, t.phase], [s₀.replies.filterMap Reply.stats?,
            s.replies.filterMap Reply.stats?, t.replies.filterMap Reply.stats?])) =
      some ([.idle, .idle, .idle], [[], [⟨1, [1, 0], View.default.eye, 2, 0, 0, [0], []⟩],
        [⟨1, [1, 0], View.default.eye, 2, 0, 0, [0], []⟩,
          ⟨2, [1, 0], View.default.eye, 1, 1, 0, [], [0]⟩]]) := by decide +kernel
  obtain ⟨s₀, hs₀, hrun⟩ := Option.bind_eq_some_iff.1 hrun
  obtain ⟨s, hfirst, hrun⟩ := Option.bind_eq_some_iff.1 hrun
  obtain ⟨t, hsecond, hrun⟩ := Option.map_eq_some_iff.1 hrun
  simp only [Prod.mk.injEq, List.cons.injEq, and_true] at hrun
  obtain ⟨⟨hidle₀, hidle, hend⟩, hbefore, hfirst', hsecond'⟩ := hrun
  obtain ⟨plan, connections, hsetup, h₀⟩ := Duo.setup_of_startOf hs₀
  have hsound₀ := sound_of_setup hsetup h₀
  have hsound := hsound₀.run ((follow_within hfirst).call hidle₀)
  have hshows := shows_of_within hsound₀ hidle₀ (follow_within hfirst) hidle (by rw [hbefore, hfirst']; rfl)
  have hshows' := shows_of_within hsound hidle (follow_within hsecond) hend
    (by rw [hfirst', hsecond']; rfl)
  obtain ⟨-, hagain⟩ := named_again hsetup h₀ (.refl s₀) hshows (.refl s) hshows'
  exact ⟨s₀, s, t, _, _, hs₀, hshows, hshows', rfl, rfl, rfl,
    (hagain 0 List.mem_cons_self List.mem_cons_self).2.2⟩

end System
end SortLast
