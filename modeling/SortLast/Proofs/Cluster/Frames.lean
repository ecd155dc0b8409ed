import SortLast.Proofs.Cluster.Concord
import SortLast.Proofs.Cluster.Latest
import SortLast.Proofs.Cluster.Setup

/-!
# The frame of a call

A call looks for live participants, and ends if there are none. Else a frame begins: the coordinator
waits, takes one image after the other in the visiting order, and finishes. What it finds when it takes
an image is what is in the slot when the call ends, but for participants that deliver images that they
were not asked for.

* `System.Sound`: what holds in every state of a cluster that was set up; `System.sound_of_setup`.
* `System.Found`: what was found for a participant.
* `System.Harvest`: what has been gathered, and from whom.
* `System.Rendering`: where a call is; `System.rendering_of_within`, `System.Rendering.ended`.
* `System.Found.fresh`: what was found is what is in the slot at the end.
-/

namespace SortLast
namespace System

variable {s t u : System} {keeps : Behaviour} {view : View} {p : Nat}

/-! ### Every state -/

/-- What holds in every state of a cluster that was set up. -/
structure Sound (s : System) : Prop where
  steady : s.Steady
  filed : s.Filed
  reports : s.Reports
  judged : s.Judged
  concord : ∃ σ, Concord σ s
  attends : s.pool.barrier.closed = false → s.Attends
  remembers : s.pool.barrier.closed = false → s.Remembers
  size : s.pool.slots.size = s.coordinator.participantCount
  /-- Images are taken from everybody, once. -/
  order : ∀ eye, (s.coordinator.partition.ordered eye s.coordinator.compositor.order).Perm
    (List.range s.coordinator.participantCount)

theorem Sound.step (h : s.Sound) (hstep : Step keeps s t) : t.Sound := by
  have hcount := hstep.participantCount
  have hall : ∀ eye, ∀ p < s.pool.slots.size,
      p ∈ s.coordinator.partition.ordered eye s.coordinator.compositor.order := by
    intro eye p hp
    rw [h.size] at hp
    exact (h.order eye).mem_iff.2 (List.mem_range.2 hp)
  obtain ⟨σ, hσ⟩ := h.concord
  obtain ⟨may, hc⟩ := hstep.changes
  refine ⟨h.steady.step hstep, h.filed.step h.steady hstep, h.reports.step hstep,
    h.judged.step h.reports h.steady (fun hopen => (h.attends hopen).count) hstep,
    hσ.step h.steady hstep, Attends.step h.attends hstep,
    Remembers.step h.remembers h.attends hall hstep, ?_, ?_⟩
  · rw [hc.size, hcount]
    exact h.size
  · intro eye
    obtain ⟨hpartition, hrest⟩ := Prod.mk.injEq .. ▸ hstep.fixed
    obtain ⟨hcompositor, -⟩ := Prod.mk.injEq .. ▸ hrest
    rw [hpartition, hcompositor, hcount]
    exact h.order eye

theorem Sound.run (h : s.Sound) (hrun : Run keeps s t) : t.Sound := by
  induction hrun with
  | refl => exact h
  | tail _ hstep ih => exact ih.step hstep

theorem fixed_of_ofPlan {config : ClusterConfig} {plan : Plan} {connections : List Connection}
    (h : System.ofPlan config plan connections = .ok s) :
    s.coordinator.partition = plan.partition ∧ s.coordinator.compositor.order = config.order ∧
      s.coordinator.config.policy = config.policy := by
  obtain ⟨c, hc, h⟩ := ok_of_bind h
  cases h
  obtain ⟨framebuffer, -, hc⟩ := ok_of_bind hc
  cases hc
  exact ⟨rfl, rfl, rfl⟩

theorem sound_of_setup {net : Network} {config : ClusterConfig} {preview : Preview} {plan : Plan}
    {connections : List Connection}
    (hsetup : (Setup.run net config preview).outcome = .ok (plan, connections))
    (h : System.ofPlan config plan connections = .ok s) : s.Sound := by
  obtain ⟨-, -, hpool, hphase, -⟩ := ofPlan_eq h
  obtain ⟨hpartition, -, -⟩ := fixed_of_ofPlan h
  refine ⟨steady_of_ofPlan h, filed_of_ofPlan h, reports_of_ofPlan h, ?_,
    ⟨_, concord_of_setup hsetup h⟩, fun _ => attends_of_ofPlan h, fun _ => remembers_of_ofPlan h, ?_, ?_⟩
  · rw [Judged, hphase]
    trivial
  · rw [hpool, participantCount_ofPlan h, Slots.size, Pool.ofInboxes, Slots.ofCount]
    simp
  · intro eye
    obtain ⟨hmade, -⟩ := Setup.course_of_ok hsetup
    rw [hpartition, participantCount_ofPlan h, (Setup.told_of_run hsetup).1]
    exact Plan.ordered_perm hmade eye _

/-- During a frame the barrier is open. -/
theorem Sound.opened (h : s.Sound) (hph : ¬ s.phase.Rests) : s.pool.barrier.closed = false :=
  Bool.eq_false_iff.2 fun hclosed => hph (h.steady.resting hclosed)

/-- Whoever is live was live before. -/
theorem Run.liveParticipants (h : Run keeps s t) (hs : s.Sound) (hp : p ∈ t.liveParticipants) :
    p ∈ s.liveParticipants := by
  obtain ⟨b, hb, hlive⟩ := (mem_liveParticipants (hs.steady.run h)).1 hp
  have hlt := hb.lt_participantCount
  rw [h.participantCount] at hlt
  obtain ⟨a, ha⟩ := hs.steady.seated p hlt
  obtain ⟨b', hb', hbefore⟩ := h.seat hs.steady hs.filed ha
  obtain rfl := hb'.unique hb
  exact (mem_liveParticipants hs.steady).2 ⟨a, ha, hbefore.connected hlive.1, hbefore.alive hlive.2⟩

/-! ### What is found -/

/-- The image of participant `x.1` is taken in `u`, for the frame that follows those of `s`, and `x.2` is
what is found. -/
structure Asks (s : System) (view : View) (u : System) (x : Nat × Option Image) : Prop where
  phase : ∃ evicted lost rest g, u.phase = .gathering view evicted lost (x.1 :: rest) g
  frame : u.coordinator.frameIndex = s.coordinator.frameIndex + 1
  kept : u.coordinator.lastImages[x.1]? = s.coordinator.lastImages[x.1]?
  found : x.2 = u.pool.slots.fresh x.1 u.coordinator.frameIndex

/-- In the call of `view` from `s` to `t`, `x.2` was found when the image of participant `x.1` was
taken. -/
def Found (keeps : Behaviour) (s : System) (view : View) (t : System) (x : Nat × Option Image) : Prop :=
  ∃ u, Within keeps (s.start (.render view)) u ∧ Within keeps u t ∧ s.Asks view u x

theorem Found.tail {x : Nat × Option Image} (h : Found keeps s view t x) (hne : t.phase ≠ .idle)
    (hstep : Step keeps t u) : Found keeps s view u x := by
  obtain ⟨v, hv, hw, hasks⟩ := h
  exact ⟨v, hv, hw.tail hne hstep, hasks⟩

/-- In the call of `view` from `s` to `t`, images were taken from the participants in `found`, and are
still to be taken from those in `rest`; `g` is what was gathered, and `d` the coordinator after that. -/
structure Harvest (keeps : Behaviour) (s : System) (view : View) (t : System)
    (found : List (Nat × Option Image)) (rest : List Nat) (g : Gathering) (d : Coordinator) : Prop where
  gathered : s.coordinator.begun.Gathered found g d
  order : s.coordinator.partition.ordered view.eye s.coordinator.compositor.order =
    found.map Prod.fst ++ rest
  found : ∀ x ∈ found, Found keeps s view t x

variable {found : List (Nat × Option Image)} {rest : List Nat} {g : Gathering} {d : Coordinator}

/-- Nothing was gathered when the frame began. -/
theorem harvest_nil (h : t.coordinator.books = s.coordinator.begun) : Harvest keeps s view t []
    (s.coordinator.partition.ordered view.eye s.coordinator.compositor.order) {} t.coordinator.books := by
  refine ⟨?_, rfl, nofun⟩
  rw [h]
  exact Coordinator.gathered_nil _

theorem Harvest.tail (h : Harvest keeps s view t found rest g d) (hne : t.phase ≠ .idle)
    (hstep : Step keeps t u) : Harvest keeps s view u found rest g d :=
  ⟨h.gathered, h.order, fun x hx => (h.found x hx).tail hne hstep⟩

/-- One image more is taken. -/
theorem Harvest.gather {evicted lost : List Nat}
    (h : Harvest keeps s view t found (p :: rest) g t.coordinator.books) (hs : s.Sound)
    (hcall : Within keeps (s.start (.render view)) t)
    (hph : t.phase = .gathering view evicted lost (p :: rest) g) (hstep : Step keeps t u) :
    Harvest keeps s view u (found ++ [(p, t.pool.slots.fresh p t.coordinator.frameIndex)]) rest
      (t.coordinator.books.gather g p (t.pool.slots.fresh p t.coordinator.frameIndex)).1
      (t.coordinator.books.gather g p (t.pool.slots.fresh p t.coordinator.frameIndex)).2 := by
  have hne : t.phase ≠ .idle := by rw [hph]; exact Phase.noConfusion
  have hp : p ∉ found.map Prod.fst := by
    have hnodup := (hs.order view.eye).nodup_iff.2 List.nodup_range
    rw [h.order] at hnodup
    exact fun hmem => (List.nodup_append.1 hnodup).2.2 p hmem p List.mem_cons_self rfl
  obtain ⟨lastImages, hbooks, hkept⟩ := h.gathered.coordinator
  have hframe := congrArg Coordinator.frameIndex hbooks
  have hlast := congrArg Coordinator.lastImages hbooks
  change t.coordinator.frameIndex = s.coordinator.frameIndex + 1 at hframe
  change t.coordinator.lastImages = lastImages at hlast
  refine ⟨h.gathered.gather hp _, ?_, fun x hx => ?_⟩
  · rw [h.order, List.map_append, List.append_assoc]
    rfl
  · rcases List.mem_append.1 hx with hx | hx
    · exact (h.found x hx).tail hne hstep
    · obtain rfl := List.mem_singleton.1 hx
      refine ⟨t, hcall, Within.refl.tail hne hstep, ⟨evicted, lost, rest, g, hph⟩, hframe, ?_, rfl⟩
      rw [hlast]
      exact hkept p hp

theorem framebuffer_of_books (h : t.coordinator.books = s.coordinator.books) :
    t.coordinator.framebuffer = s.coordinator.framebuffer := by
  have hframebuffer := congrArg Coordinator.framebuffer h
  exact hframebuffer

/-- When all images are taken, the frame is refused because some are missing, and nothing is changed; or
the images have a composite, which is shown. -/
theorem Harvest.answers {evicted lost : List Nat} {r : Except ClusterError FrameStats}
    (h : Harvest keeps s view t found rest g d)
    (hf : d.finish view evicted lost g = .ok (r, t.coordinator.books)) :
    t.coordinator.frameIndex = s.coordinator.frameIndex + 1 ∧
      ((s.coordinator.config.policy = .abort ∧ g.missing ≠ [] ∧
        t.coordinator.framebuffer = s.coordinator.framebuffer ∧
        r = .error (Coordinator.refusal (s.coordinator.frameIndex + 1) evicted lost g.missing)) ∨
      ((s.coordinator.config.policy = .abort → g.missing = []) ∧
        s.coordinator.compositor.composite s.coordinator.framebuffer s.coordinator.config.background
          g.images = .ok t.coordinator.framebuffer ∧
        r = .ok {
          frame := s.coordinator.frameIndex + 1, order := g.order, eye := view.eye,
          composited := g.composited, reused := g.reused, skipped := g.skipped, evicted, lost })) := by
  obtain ⟨lastImages, rfl, -⟩ := h.gathered.coordinator
  rcases Coordinator.finish_cases { s.coordinator.begun with lastImages } view evicted lost g with
    ⟨habort, hmissing, heq⟩ | ⟨hcomplete, ⟨f, -, heq⟩ | ⟨framebuffer, hshown, heq⟩⟩
  · obtain ⟨hr, hbooks⟩ := Prod.mk.injEq .. ▸ Except.ok.inj (heq.symm.trans hf)
    have hframe := congrArg Coordinator.frameIndex hbooks
    have hframebuffer := congrArg Coordinator.framebuffer hbooks
    exact ⟨hframe.symm, .inl ⟨habort, hmissing, hframebuffer.symm, hr.symm⟩⟩
  · cases heq.symm.trans hf
  · obtain ⟨hr, hbooks⟩ := Prod.mk.injEq .. ▸ Except.ok.inj (heq.symm.trans hf)
    have hframe := congrArg Coordinator.frameIndex hbooks
    have hframebuffer := congrArg Coordinator.framebuffer hbooks
    change framebuffer = t.coordinator.framebuffer at hframebuffer
    rw [hframebuffer] at hshown
    refine ⟨hframe.symm, .inr ⟨fun habort => ?_, hshown, hr.symm⟩⟩
    by_contra hmissing
    exact hcomplete ⟨habort, hmissing⟩

/-- Only images that have no composite make a call end without an answer. -/
theorem Harvest.crashes {evicted lost : List Nat} {f : Fault}
    (h : Harvest keeps s view t found rest g d) (hf : d.finish view evicted lost g = .error f) :
    (s.coordinator.config.policy = .abort → g.missing = []) ∧
      s.coordinator.compositor.composite s.coordinator.framebuffer s.coordinator.config.background
        g.images = .error f := by
  obtain ⟨lastImages, rfl, -⟩ := h.gathered.coordinator
  rcases Coordinator.finish_cases { s.coordinator.begun with lastImages } view evicted lost g with
    ⟨-, -, heq⟩ | ⟨hcomplete, ⟨f', hnone, heq⟩ | ⟨framebuffer, -, heq⟩⟩
  · cases heq.symm.trans hf
  · cases heq.symm.trans hf
    refine ⟨fun habort => ?_, hnone⟩
    by_contra hmissing
    exact hcomplete ⟨habort, hmissing⟩
  · cases heq.symm.trans hf

/-! ### Where a call is -/

/-- The call of `view` from `s` has got to `t`. -/
inductive Rendering (keeps : Behaviour) (s : System) (view : View) (t : System) : Prop
  | looking : (t.phase = .reaping view ∨ ∃ next live, t.phase = .surveying view next live) →
      t.coordinator.books = s.coordinator.books → t.replies = s.replies → Rendering keeps s view t
  | preparing : t.phase.Prepares view → t.coordinator.books = s.coordinator.begun →
      t.replies = s.replies → Rendering keeps s view t
  | gathering {evicted lost rest : List Nat} {g : Gathering} {found : List (Nat × Option Image)} :
      t.phase = .gathering view evicted lost rest g →
      Harvest keeps s view t found rest g t.coordinator.books → t.replies = s.replies →
      Rendering keeps s view t
  | nobody : t.phase = .idle → t.liveParticipants = [] → t.coordinator.books = s.coordinator.books →
      t.replies = s.replies ++ [.frame (.error .noParticipants)] → Rendering keeps s view t
  | finished {v : System} {evicted lost : List Nat} {g : Gathering}
      {found : List (Nat × Option Image)} {r : Except ClusterError FrameStats} : t.phase = .idle →
      Within keeps (s.start (.render view)) v → Step keeps v t →
      v.phase = .gathering view evicted lost [] g →
      Harvest keeps s view t found [] g v.coordinator.books →
      v.coordinator.books.finish view evicted lost g = .ok (r, t.coordinator.books) →
      t.replies = s.replies ++ [.frame r] → Rendering keeps s view t
  | crashed {evicted lost : List Nat} {g : Gathering} {found : List (Nat × Option Image)} {f : Fault}
      {d : Coordinator} : t.phase = .crashed f → Harvest keeps s view t found [] g d →
      d.finish view evicted lost g = .error f → Rendering keeps s view t

/-- What follows the sending of cameras, and the wait, at an open barrier. -/
theorem Turn.of_prepares (h : Turn t u) (ht : t.phase.Prepares view)
    (hopen : t.pool.barrier.closed = false) :
    SameBooks t u ∧ (u.phase.Prepares view ∨ ∃ evicted lost, u.phase = .gathering view evicted lost
      (t.coordinator.partition.ordered view.eye t.coordinator.compositor.order) {}) := by
  cases h with
  | send hph hu same =>
    rw [hph] at ht
    obtain rfl := ht
    exact ⟨same, .inl (by rw [hu]; rfl)⟩
  | sent hph hu same =>
    rw [hph] at ht
    obtain rfl := ht
    exact ⟨same, .inl (by rw [hu]; rfl)⟩
  | wait hph hu same =>
    obtain rfl := ht.serves.eq_of_waits hph
    exact ⟨same, .inl hu.prepares⟩
  | refuse _ hclosed =>
    rw [hopen] at hclosed
    cases hclosed
  | collect hph hu same =>
    rw [hph] at ht
    obtain rfl := ht
    exact ⟨same, .inr ⟨_, _, hu⟩⟩
  | reap hph | look hph | nobody hph | begin hph | gather hph | finish hph | crash hph | tell hph
  | told hph | exit hph | exited hph | close hph | closeBarrier hph | join hph | joined hph =>
    rw [hph] at ht
    exact ht.elim

end System

theorem Phase.Prepares.not_rests {f : Phase} {view : View} (h : f.Prepares view) : ¬ f.Rests := by
  cases f with
  | idle | reaping | surveying | gathering | broadcasting | exiting | closing | closingBarrier | joining
  | crashed => exact h.elim
  | _ => exact id

namespace System

variable {s t u : System} {keeps : Behaviour} {view : View} {p : Nat}

/-- A survey that has found nobody is right. -/
theorem Sound.nobody_live (h : s.Sound) {next : Nat} (hph : s.phase = .surveying view next [])
    (hle : s.coordinator.participantCount ≤ next) : s.liveParticipants = [] := by
  obtain ⟨σ, hσ⟩ := h.concord
  refine List.eq_nil_iff_forall_not_mem.2 fun p hp => ?_
  obtain ⟨a, ha, hlive⟩ := (mem_liveParticipants h.steady).1 hp
  have hlt := ha.lt_participantCount
  exact absurd (hσ.found view next [] hph p a ha hlive (by omega)) List.not_mem_nil

/-- A turn of the coordinator in a call. -/
theorem Rendering.turn (h : Rendering keeps s view t) (hs : s.Sound) (ht : t.Sound)
    (hcall : Within keeps (s.start (.render view)) t) (hne : t.phase ≠ .idle) (hstep : Step keeps t u)
    (hturn : Turn t u) : Rendering keeps s view u := by
  cases h with
  | looking hph hbooks hreplies =>
    rcases hph with hph | ⟨next, live, hph⟩
    · obtain ⟨hu, same⟩ := hturn.of_reaping hph
      exact .looking (hu.imp_right fun hu => ⟨_, _, hu⟩) (same.books.trans hbooks)
        (same.replies.trans hreplies)
    · rcases hturn.of_surveying hph with ⟨-, same, hu⟩ | ⟨hle, rfl, hsame, hr⟩ |
        ⟨-, -, hu, hbegun, -, hr⟩
      · refine .looking (.inr ?_) (same.books.trans hbooks) (same.replies.trans hreplies)
        rcases hu with hu | ⟨-, hu⟩
        · exact ⟨_, _, hu⟩
        · exact ⟨_, _, hu⟩
      · have hnone := ht.nobody_live hph hle
        refine .nobody hr.phase (List.eq_nil_iff_forall_not_mem.2 fun p hp => ?_) (hsame.trans hbooks)
          (by rw [hr.replies, hreplies])
        have hbefore := Run.liveParticipants ((Run.refl t).tail hstep) ht hp
        rw [hnone] at hbefore
        exact absurd hbefore List.not_mem_nil
      · refine .preparing (by rw [hu]; rfl) ?_ (hr.trans hreplies)
        rw [hbegun, Coordinator.begun, hbooks, frameIndex_of_books hbooks]
        rfl
  | preparing hph hbooks hreplies =>
    obtain ⟨same, hu | ⟨evicted, lost, hu⟩⟩ := hturn.of_prepares hph (ht.opened hph.not_rests)
    · exact .preparing hu (same.books.trans hbooks) (same.replies.trans hreplies)
    · have hpartition := congrArg Coordinator.partition hbooks
      have hcompositor := congrArg Coordinator.compositor hbooks
      change t.coordinator.partition = s.coordinator.partition at hpartition
      change t.coordinator.compositor = s.coordinator.compositor at hcompositor
      rw [hpartition, hcompositor] at hu
      exact .gathering hu (harvest_nil (same.books.trans hbooks)) (same.replies.trans hreplies)
  | gathering hph hharvest hreplies =>
    rcases hturn.of_gathering hph with ⟨q, rest', rfl, hr, hu, hbooks⟩ | ⟨rfl, hu, r, hr, hf⟩ |
      ⟨rfl, f, hu, hf⟩
    · have hmore := hharvest.gather hs hcall hph hstep
      rw [← hbooks] at hmore
      exact .gathering hu hmore (hr.trans hreplies)
    · exact .finished hu hcall hstep hph (hharvest.tail hne hstep) hf (by rw [hr, hreplies])
    · exact .crashed hu (hharvest.tail hne hstep) hf
  | nobody hidle | finished hidle => exact absurd hidle hne
  | crashed hph => exact (hturn.not_crashed hph).elim

theorem Rendering.step (h : Rendering keeps s view t) (hs : s.Sound) (ht : t.Sound)
    (hcall : Within keeps (s.start (.render view)) t) (hne : t.phase ≠ .idle)
    (hstep : Step keeps t u) : Rendering keeps s view u := by
  rcases step_inside hstep hne with ⟨hturn, -⟩ | ⟨hph, same, -⟩
  · exact h.turn hs ht hcall hne hstep hturn
  · cases h with
    | looking ht hbooks hreplies =>
      exact .looking (by rw [hph]; exact ht) (same.books.trans hbooks) (same.replies.trans hreplies)
    | preparing ht hbooks hreplies =>
      exact .preparing (by rw [hph]; exact ht) (same.books.trans hbooks) (same.replies.trans hreplies)
    | gathering ht hharvest hreplies =>
      have hmore := hharvest.tail hne hstep
      rw [← same.books] at hmore
      exact .gathering (hph.trans ht) hmore (same.replies.trans hreplies)
    | nobody hidle | finished hidle => exact absurd hidle hne
    | crashed ht hharvest hf => exact .crashed (hph.trans ht) (hharvest.tail hne hstep) hf

theorem rendering_of_within (hs : s.Sound) (hidle : s.phase = .idle)
    (h : Within keeps (s.start (.render view)) t) : Rendering keeps s view t ∧ t.Sound := by
  induction h with
  | refl =>
    have hstep : Step keeps s (s.start (.render view)) := step_start hidle _
    exact ⟨.looking (.inl rfl) rfl rfl, hs.step hstep⟩
  | tail hcall hne hstep ih =>
    exact ⟨ih.1.step hs ih.2 hcall hne hstep, ih.2.step hstep⟩

/-- A call ends because nobody is live, or with the answer to a frame. -/
theorem Rendering.ended (h : Rendering keeps s view t) (hend : t.phase = .idle) :
    (t.liveParticipants = [] ∧ t.coordinator.books = s.coordinator.books ∧
      t.replies = s.replies ++ [.frame (.error .noParticipants)]) ∨
    ∃ v evicted lost g found r, Within keeps (s.start (.render view)) v ∧ Step keeps v t ∧
      v.phase = .gathering view evicted lost [] g ∧
      Harvest keeps s view t found [] g v.coordinator.books ∧
      v.coordinator.books.finish view evicted lost g = .ok (r, t.coordinator.books) ∧
      t.replies = s.replies ++ [.frame r] := by
  cases h with
  | nobody _ hnobody hbooks hreplies => exact .inl ⟨hnobody, hbooks, hreplies⟩
  | finished _ hv hstep hph hharvest hf hreplies =>
    exact .inr ⟨_, _, _, _, _, _, hv, hstep, hph, hharvest, hf, hreplies⟩
  | looking hph =>
    rw [hend] at hph
    rcases hph with hph | ⟨_, _, hph⟩ <;> cases hph
  | preparing hph =>
    rw [hend] at hph
    exact hph.elim
  | gathering hph | crashed hph => cases hend.symm.trans hph

/-! ### What was found, in the end -/

variable {x : Nat × Option Image}

theorem Found.lt_participantCount (h : Found keeps s view t x) (hs : s.Sound) (hidle : s.phase = .idle) :
    x.1 < s.coordinator.participantCount := by
  obtain ⟨u, hu, -, ⟨evicted, lost, rest, g, hph⟩, -⟩ := h
  cases (rendering_of_within hs hidle hu).1 with
  | gathering hph' hharvest =>
    cases hph.symm.trans hph'
    refine List.mem_range.1 ((hs.order view.eye).mem_iff.1 ?_)
    rw [hharvest.order]
    exact List.mem_append_right _ List.mem_cons_self
  | looking hph' => rcases hph' with hph' | ⟨_, _, hph'⟩ <;> cases hph.symm.trans hph'
  | preparing hph' =>
    rw [hph] at hph'
    exact hph'.elim
  | nobody hph' | finished hph' | crashed hph' => cases hph.symm.trans hph'

/-- The seat of a participant when its image was taken, and in the end. Nothing was found if its worker
had noted its end, or had delivered a later image already. -/
theorem Found.seats (h : Found keeps s view t x) (hs : s.Sound) (hidle : s.phase = .idle)
    (ht : t.coordinator.frameIndex = s.coordinator.frameIndex + 1) (hahead : ¬ t.Ahead x.1) :
    ∃ u a b, u.Remembers ∧ Asks s view u x ∧ u.Sits x.1 a ∧ a.Holds ∧ t.Sits x.1 b ∧ a.Before b ∧
      a.worker.delivered ≤ s.coordinator.frameIndex + 1 ∧
      b.worker.delivered ≤ s.coordinator.frameIndex + 1 ∧
      (x.2 = none → a.worker.alive = false) := by
  have hlt := h.lt_participantCount hs hidle
  obtain ⟨u, hu, hw, hasks⟩ := h
  obtain ⟨-, hsound⟩ := rendering_of_within hs hidle hu
  obtain ⟨evicted, lost, rest, g, hph⟩ := hasks.phase
  have hopen := hsound.opened (by rw [hph]; exact id)
  rw [← (hu.run hidle).participantCount] at hlt
  obtain ⟨a, ha⟩ := hsound.steady.seated x.1 hlt
  have hholds := hsound.filed x.1 a ha
  obtain ⟨b, hb, hbefore⟩ := hw.toRun.seat hsound.steady hsound.filed ha
  rw [hb.ahead_iff ((hsound.run hw.toRun).filed x.1 b hb), ht] at hahead
  have hle := hbefore.delivered
  refine ⟨u, a, b, hsound.remembers hopen, hasks, ha, hholds, hb, hbefore, by omega, by omega, ?_⟩
  intro hnone
  have haway : u.phase.Away := by rw [hph]; trivial
  refine ((hsound.attends hopen).missing haway ha hholds ?_ ?_).resolve_right fun hu => ?_
  · rw [hasks.frame]
    exact Nat.succ_pos _
  · rw [← hasks.found, hnone]
  · rw [ha.ahead_iff hholds, hasks.frame] at hu
    omega

/-- Whoever was not found has lost its worker. -/
theorem Found.not_live (h : Found keeps s view t x) (hs : s.Sound) (hidle : s.phase = .idle)
    (ht : t.coordinator.frameIndex = s.coordinator.frameIndex + 1) (hx : x.2 = none) :
    x.1 ∉ t.liveParticipants ∨ t.Ahead x.1 := by
  by_cases hahead : t.Ahead x.1
  · exact .inr hahead
  · obtain ⟨u, a, b, -, -, -, -, hb, hbefore, -, -, hdead⟩ := h.seats hs hidle ht hahead
    refine .inl fun hlive => ?_
    obtain ⟨v, hv, hw, -⟩ := h
    have hsteady := (hs.run ((hv.trans hw).run hidle)).steady
    obtain ⟨b', hb', -, halive⟩ := (mem_liveParticipants hsteady).1 hlive
    obtain rfl := hb'.unique hb
    have hwas := hbefore.alive halive
    rw [hdead hx] at hwas
    cases hwas

/-- What was found is what is in the slot in the end, and what the coordinator had kept for a participant
that was not found is what is in its slot. -/
theorem Found.fresh (h : Found keeps s view t x) (hs : s.Sound) (hidle : s.phase = .idle)
    (ht : t.coordinator.frameIndex = s.coordinator.frameIndex + 1) (hahead : ¬ t.Ahead x.1) :
    x.2 = t.pool.slots.fresh x.1 (s.coordinator.frameIndex + 1) ∧
      (x.2 = none → s.coordinator.lastImages[x.1]?.join =
        (t.pool.slots.get x.1).map SlotEntry.image) := by
  obtain ⟨u, a, b, hremembers, hasks, ha, hholds, hb, hbefore, hle, hle', hdead⟩ :=
    h.seats hs hidle ht hahead
  have hfound := hasks.found
  rw [hasks.frame] at hfound
  -- the slot has not changed since then
  have hslot : b.slot = a.slot := by
    refine hbefore.slot ?_
    cases hx : x.2 with
    | none => exact hbefore.ended (hdead hx)
    | some image =>
      have hentry : a.slot = some ⟨s.coordinator.frameIndex + 1, image⟩ :=
        ha.get.symm.trans (get_of_fresh (hfound.symm.trans hx))
      have hnumber := hholds.frame hentry
      have hmore := hbefore.delivered
      change s.coordinator.frameIndex + 1 = a.worker.delivered at hnumber
      omega
  have hget : t.pool.slots.get x.1 = u.pool.slots.get x.1 := by rw [hb.get, ha.get, hslot]
  have hsame : t.pool.slots.fresh x.1 (s.coordinator.frameIndex + 1) =
      u.pool.slots.fresh x.1 (s.coordinator.frameIndex + 1) := by
    rw [Slots.fresh, Slots.fresh, hget]
  refine ⟨by rw [hsame]; exact hfound, fun hnone => ?_⟩
  rw [← hasks.kept, hget]
  cases hentry : u.pool.slots.get x.1 with
  | none => exact hremembers.empty x.1 hentry
  | some e =>
    refine hremembers.latest x.1 e hentry (.inl ?_)
    have hnumber := hholds.frame (ha.get.symm.trans hentry)
    rw [hasks.frame]
    refine Nat.lt_of_le_of_ne (hnumber.trans_le hle) fun heq => ?_
    have hsome := fresh_of_get hentry
    rw [heq, ← hfound, hnone] at hsome
    cases hsome

end System
end SortLast
