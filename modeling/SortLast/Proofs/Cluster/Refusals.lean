import SortLast.Proofs.Cluster.Frames

/-!
# Frames that are refused

A call shows a new frame or leaves the old one as it is. Under the policy that refuses frames with
missing images, it shows a frame only if everybody has delivered; and else its answer says who has
not: those that were dropped in this call, or one that is not live any more.

* `NamesDropped`, `System.Evicts`: the participants that were dropped in a call, and answers about them.
* `System.Delivers`, `System.AllDeliver`: who has delivered an image for the frame of a call.
* `System.Refuses`: the failures of a call under that policy.
* `System.shows_complete_or_refuses`: whatever participants do.
-/

namespace SortLast

/-! ### Who is dropped -/

/-- An answer that is about the participants that were dropped, if it is about any. -/
def NamesDropped (evicted : List Nat) : Except ClusterError FrameStats → Prop
  | .ok stats => stats.evicted = evicted
  | .error e => e = .noParticipants ∨
    ∃ frame lost missing, e = Coordinator.refusal frame evicted lost missing

namespace Coordinator

variable {c d : Coordinator} {view : View} {evicted lost : List Nat} {g : Gathering}
  {r : Except ClusterError FrameStats}

theorem namesDropped_of_finish (h : c.finish view evicted lost g = .ok (r, d)) :
    NamesDropped evicted r := by
  rcases c.finish_cases view evicted lost g with ⟨-, -, hf⟩ | ⟨-, ⟨f, -, hf⟩ | ⟨framebuffer, -, hf⟩⟩
  · cases hf.symm.trans h
    exact .inr ⟨_, _, _, rfl⟩
  · cases hf.symm.trans h
  · cases hf.symm.trans h
    rfl

/-- A refusal tells who was dropped. -/
theorem refusal_inj {k k' : Nat} {l l' lost lost' missing missing' : List Nat}
    (h : refusal k l lost missing = refusal k' l' lost' missing') : l = l' := by
  unfold refusal at h
  cases l with
  | nil =>
    cases l' with
    | nil => rfl
    | cons => cases h
  | cons =>
    cases l' with
    | nil => cases h
    | cons =>
      cases h
      rfl

theorem refusal_ne (k : Nat) (l lost missing : List Nat) :
    refusal k l lost missing ≠ .noParticipants := by
  unfold refusal
  split <;> nofun

/-- An answer to a frame is about one list of participants. -/
theorem eq_of_namesDropped (h : c.finish view evicted lost g = .ok (r, d)) {l : List Nat}
    (hl : NamesDropped l r) : l = evicted := by
  rcases c.finish_cases view evicted lost g with ⟨-, -, hf⟩ | ⟨-, ⟨f, -, hf⟩ | ⟨framebuffer, -, hf⟩⟩
  · cases hf.symm.trans h
    rcases hl with hl | ⟨frame, lost', missing, hl⟩
    · exact absurd hl (refusal_ne _ _ _ _)
    · exact (refusal_inj hl).symm
  · cases hf.symm.trans h
  · cases hf.symm.trans h
    exact hl.symm

end Coordinator

namespace System

variable {s t u : System} {keeps : Behaviour} {view : View} {p : Nat} {evicted : List Nat}

theorem Step.dropped_back (h : Step keeps s t) (ht : t.phase.dropped? = some evicted) :
    s.phase.dropped? = some evicted ∨ evicted = [] ∨ ∃ view, t.phase = .evicting view evicted evicted := by
  cases step_naming h with
  | judges _ hjudges => exact hjudges.dropped_back ht
  | gathers hph hu =>
    rw [hu] at ht
    rw [hph]
    exact .inl ht
  | spares hspares =>
    rw [hspares.dropped?] at ht
    cases ht
  | stays hph =>
    rw [← hph]
    exact .inl ht

/-- The participants that are dropped stay the same to the end of the call, and its answer is about
them. -/
theorem Step.dropped (h : Step keeps s t) (hs : s.phase.dropped? = some evicted) :
    (t.phase.dropped? = some evicted ∧ t.replies = s.replies) ∨
      (t.phase = .idle ∧ ∃ r, NamesDropped evicted r ∧ t.replies = s.replies ++ [.frame r]) ∨
      ∃ f, t.phase = .crashed f := by
  have hne : s.phase ≠ .idle := by
    intro hidle
    rw [hidle] at hs
    cases hs
  rcases step_judges h hne with ⟨hturn, hjudges⟩ | ⟨hph, same⟩
  · cases hturn with
    | wait hw hu same =>
      refine .inl ⟨((hjudges _ hw).resolve_right fun hidle => ?_).dropped hs, same.replies⟩
      rw [hidle] at hu
      exact hu
    | refuse _ _ _ hr => exact .inr (.inl ⟨hr.phase, .error .noParticipants, .inl rfl, hr.replies⟩)
    | collect hph hu same =>
      rw [hph] at hs
      rw [hu]
      exact .inl ⟨hs, same.replies⟩
    | gather hph hu _ _ hreplies =>
      rw [hph] at hs
      rw [hu]
      exact .inl ⟨hs, hreplies⟩
    | finish hph hf hr =>
      rw [hph] at hs
      cases hs
      exact .inr (.inl ⟨hr.phase, _, Coordinator.namesDropped_of_finish hf, hr.replies⟩)
    | crash _ hu => exact .inr (.inr ⟨_, hu⟩)
    | reap hph | look hph | nobody hph | begin hph | send hph | sent hph | tell hph | told hph
    | exit hph | exited hph | close hph | closeBarrier hph | join hph | joined hph =>
      rw [hph] at hs
      cases hs
  · rw [hph, same.replies]
    exact .inl ⟨hs, rfl⟩

theorem Within.dropped (h : Within keeps s t) (hs : s.phase.dropped? = some evicted) :
    (t.phase.dropped? = some evicted ∧ t.replies = s.replies) ∨
      (t.phase = .idle ∧ ∃ r, NamesDropped evicted r ∧ t.replies = s.replies ++ [.frame r]) ∨
      ∃ f, t.phase = .crashed f := by
  induction h with
  | refl => exact .inl ⟨hs, rfl⟩
  | tail _ hne hstep ih =>
    rcases ih with ⟨hdropped, hreplies⟩ | ⟨hidle, -⟩ | ⟨f, hph⟩
    · rw [← hreplies]
      exact hstep.dropped hdropped
    · exact absurd hidle hne
    · rcases step_inside hstep hne with ⟨hturn, -⟩ | ⟨hsame, -⟩
      · exact (hturn.not_crashed hph).elim
      · exact .inr (.inr ⟨f, hsame.trans hph⟩)

/-- On the way from `s` to `t` the coordinator drops the participants in `evicted`, if any, and nobody
else. -/
structure Evicts (keeps : Behaviour) (s t : System) (evicted : List Nat) : Prop where
  only : ∀ u view rest l, Within keeps s u → Within keeps u t → u.phase = .evicting view rest l →
    l = evicted
  dropped : evicted ≠ [] → ∃ u view, Within keeps s u ∧ Within keeps u t ∧
    u.phase = .evicting view evicted evicted

theorem Within.dropped_back (h : Within keeps s t) (hs : s.phase.dropped? = none)
    (ht : t.phase.dropped? = some evicted) (hne : evicted ≠ []) :
    ∃ u view, Within keeps s u ∧ Within keeps u t ∧ u.phase = .evicting view evicted evicted := by
  induction h with
  | refl =>
    rw [hs] at ht
    cases ht
  | tail hrun hinside hstep ih =>
    rcases hstep.dropped_back ht with hbefore | hnil | ⟨view, hph⟩
    · obtain ⟨u, view, hu, hw, hph⟩ := ih hbefore
      exact ⟨u, view, hu, hw.tail hinside hstep, hph⟩
    · exact absurd hnil hne
    · exact ⟨_, view, hrun.tail hinside hstep, .refl, hph⟩

/-- Whoever was dropped when a frame is finished, was dropped in this call. -/
theorem evicts_of_finish {lost : List Nat} {g : Gathering} {c d : Coordinator}
    {r : Except ClusterError FrameStats} (hu : Within keeps (s.start (.render view)) u)
    (hph : u.phase = .gathering view evicted lost [] g) (hstep : Step keeps u t)
    (hf : c.finish view evicted lost g = .ok (r, d)) (ht : t.phase = .idle)
    (hreplies : t.replies = s.replies ++ [.frame r]) :
    Evicts keeps (s.start (.render view)) t evicted := by
  constructor
  · intro v view' rest l _ hw hv
    rcases hw.dropped (by rw [hv]; rfl) with ⟨hdropped, -⟩ | ⟨-, r', hnames, hreplies'⟩ | ⟨f, hcrash⟩
    · rw [ht] at hdropped
      cases hdropped
    · obtain ⟨-, hlast⟩ := List.append_inj' (hreplies.symm.trans hreplies') rfl
      cases hlast
      exact Coordinator.eq_of_namesDropped hf hnames
    · cases ht.symm.trans hcrash
  · intro hne
    obtain ⟨v, view', hv, hw, hdropped⟩ := hu.dropped_back rfl (by rw [hph]; rfl) hne
    exact ⟨v, view', hv, hw.tail (by rw [hph]; exact Phase.noConfusion) hstep, hdropped⟩

/-- Whoever is named when a frame is finished is named once, and has lost the connection. -/
theorem Sound.named_of_finish {lost : List Nat} {g : Gathering} (hu : u.Sound)
    (hph : u.phase = .gathering view evicted lost [] g) (hstep : Step keeps u t) :
    (evicted ++ lost).Nodup ∧ ∀ p ∈ evicted ++ lost, t.Shut p := by
  have hjudged := hu.judged
  rw [Judged, hph] at hjudged
  obtain ⟨hnodup, hshut⟩ := hjudged
  obtain ⟨may, hc⟩ := hstep.changes
  exact ⟨hnodup, fun p hp => hc.shut hu.steady (hshut p hp)⟩

theorem Shut.not_live (h : s.Shut p) : p ∉ s.liveParticipants := by
  rw [liveParticipants, List.mem_filter, h.2]
  rintro ⟨-, hlive⟩
  cases hlive

/-! ### Calls without a frame -/

/-- A frame begins only if somebody was live. -/
theorem live_of_within (hs : s.Sound) (hidle : s.phase = .idle)
    (h : Within keeps (s.start (.render view)) t) :
    (t.phase = .reaping view ∨
      ∃ next live, t.phase = .surveying view next live ∧ ∀ p ∈ live, p ∈ s.liveParticipants) ∨
      (t.phase = .idle ∧ ∃ l, t.replies = l ++ [.frame (.error .noParticipants)]) ∨
      s.liveParticipants ≠ [] := by
  induction h with
  | refl => exact .inl (.inl rfl)
  | @tail t u hcall hne hstep ih =>
    rcases ih with hlooks | ⟨ht, -⟩ | hlive
    · rcases step_moves hstep with ha | he | ⟨ht, -⟩ | ⟨hph, -⟩
      · rcases hlooks with hph | ⟨next, live, hph, hlive⟩
        · rcases (advance_turn ha).of_reaping hph with ⟨hu | hu, -⟩
          · exact .inl (.inl hu)
          · exact .inl (.inr ⟨_, _, hu, nofun⟩)
        · simp only [advance, hph] at ha
          split at ha
          · rename_i hlt
            cases ha
            refine .inl (.inr ⟨_, _, rfl, fun p hp => ?_⟩)
            by_cases hl : t.coordinator.isConnected next && t.pool.isAlive next
            · rw [if_pos hl] at hp
              rcases List.mem_append.1 hp with hp | hp
              · exact hlive p hp
              · obtain rfl := List.mem_singleton.1 hp
                refine (hcall.run hidle).liveParticipants hs ?_
                exact List.mem_filter.2 ⟨List.mem_range.2 hlt, hl⟩
            · rw [if_neg hl] at hp
              exact hlive p hp
          · split at ha
            · cases ha
              exact .inr (.inl ⟨rfl, _, rfl⟩)
            · rename_i hsome
              cases ha
              refine .inr (.inr fun hnil => hsome ?_)
              refine List.isEmpty_iff.2 (List.eq_nil_iff_forall_not_mem.2 fun p hp => ?_)
              have hmem := hlive p hp
              rw [hnil] at hmem
              exact List.not_mem_nil hmem
      · simp only [System.expire] at he
        rcases hlooks with hph | ⟨next, live, hph, -⟩ <;> rw [hph] at he <;> cases he
      · exact absurd ht hne
      · rw [hph]
        exact .inl hlooks
    · exact absurd ht hne
    · exact .inr (.inr hlive)

/-! ### Everybody delivers -/

/-- In the call of `view` from `s` to `t`, participant `p` has delivered `image` for the frame. -/
def Delivers (keeps : Behaviour) (s : System) (view : View) (t : System) (p : Nat) (image : Image) :
    Prop :=
  ∃ u, Within keeps (s.start (.render view)) u ∧ Within keeps u t ∧
    u.pool.slots.fresh p (s.coordinator.frameIndex + 1) = some image

/-- In the call of `view` from `s` to `t`, every participant has delivered an image for the frame;
`images` are these images in the visiting order. -/
def AllDeliver (keeps : Behaviour) (s : System) (view : View) (t : System) (images : List Image) : Prop :=
  List.Forall₂ (Delivers keeps s view t)
    (s.coordinator.partition.ordered view.eye s.coordinator.compositor.order) images

theorem Found.delivers {x : Nat × Option Image} {image : Image} (h : Found keeps s view t x)
    (hx : x.2 = some image) : Delivers keeps s view t x.1 image := by
  obtain ⟨u, hu, hw, hasks⟩ := h
  refine ⟨u, hu, hw, ?_⟩
  rw [← hasks.frame, ← hasks.found, hx]

/-- If nobody is missing, everybody has delivered, and what was gathered are these images. -/
theorem Harvest.allDeliver {found : List (Nat × Option Image)} {g : Gathering} {d : Coordinator}
    (h : Harvest keeps s view t found [] g d) (hmissing : g.missing = []) :
    AllDeliver keeps s view t g.images := by
  have haccounts := h.gathered.accounts
  have hall : ∀ x ∈ found, x.2.isSome := by
    intro x hx
    by_contra hnone
    have hmem : x.1 ∈ g.missing := by
      rw [haccounts.missing]
      exact List.mem_map_of_mem (List.mem_filter.2 ⟨hx, by simpa using hnone⟩)
    rw [hmissing] at hmem
    exact List.not_mem_nil hmem
  have horder := h.order
  rw [List.append_nil] at horder
  rw [AllDeliver, horder, haccounts.images]
  have hfound := h.found
  clear horder haccounts h
  induction found with
  | nil => exact .nil
  | cons x found ih =>
    rw [List.forall_mem_cons] at hall hfound
    obtain ⟨image, himage⟩ := Option.isSome_iff_exists.1 hall.1
    have hcontribution : s.coordinator.begun.contribution x = some image := by
      rw [Coordinator.contribution, himage]
      rfl
    rw [List.filterMap_cons_some hcontribution, List.map_cons]
    exact .cons (hfound.1.delivers himage) (ih hall.2 hfound.2)

/-! ### The answers to a call -/

/-- The failures of the call of `view` from `s` to `t`, under the policy that refuses frames with missing
images. A participant is named that is not live any more, unless it has delivered an image that it was not
asked for. -/
inductive Refuses (keeps : Behaviour) (s : System) (view : View) (t : System) : ClusterError → Prop
  | noParticipants : t.liveParticipants = [] → Refuses keeps s view t .noParticipants
  | frameTimeout {evicted : List Nat} : evicted ≠ [] →
      Evicts keeps (s.start (.render view)) t evicted → (∀ p ∈ evicted, t.Shut p) →
      Refuses keeps s view t (.frameTimeout (s.coordinator.frameIndex + 1) evicted)
  | participantLost {p : Nat} : Evicts keeps (s.start (.render view)) t [] →
      p < s.coordinator.participantCount → p ∉ t.liveParticipants ∨ t.Ahead p →
      Refuses keeps s view t (.participantLost p)

/-- A frame is refused because of those that were dropped, or else because of one whose connection has
failed, or else because of one that has delivered nothing. -/
theorem Harvest.refuses {evicted lost : List Nat} {g : Gathering} {found : List (Nat × Option Image)}
    {d : Coordinator} (h : Harvest keeps s view t found [] g d) (hs : s.Sound) (hidle : s.phase = .idle)
    (ht : t.coordinator.frameIndex = s.coordinator.frameIndex + 1)
    (hcount : t.coordinator.participantCount = s.coordinator.participantCount)
    (hevicts : Evicts keeps (s.start (.render view)) t evicted)
    (hshut : ∀ p ∈ evicted ++ lost, t.Shut p) (hmissing : g.missing ≠ []) :
    Refuses keeps s view t
      (Coordinator.refusal (s.coordinator.frameIndex + 1) evicted lost g.missing) := by
  cases evicted with
  | cons p evicted =>
    exact .frameTimeout (List.cons_ne_nil p evicted) hevicts fun q hq =>
      hshut q (List.mem_append_left lost hq)
  | nil =>
    cases lost with
    | cons p lost =>
      have hp := hshut p List.mem_cons_self
      exact .participantLost hevicts (hcount ▸ hp.1) (.inl hp.not_live)
    | nil =>
      obtain ⟨p, missing, hcons⟩ := List.exists_cons_of_ne_nil hmissing
      have hmem : p ∈ g.missing := by
        rw [hcons]
        exact List.mem_cons_self
      rw [h.gathered.accounts.missing] at hmem
      obtain ⟨x, hx, rfl⟩ := List.mem_map.1 hmem
      obtain ⟨hx, hnone⟩ := List.mem_filter.1 hx
      have hfound := h.found x hx
      rw [hcons]
      exact .participantLost hevicts (hfound.lt_participantCount hs hidle)
        (hfound.not_live hs hidle ht (Option.isNone_iff_eq_none.1 hnone))

/-- Whatever participants do, stall or fail at any point, in a cluster that was set up: a call that
returns an error leaves the framebuffer as it was. Under the policy that refuses frames with missing
images, a call shows a frame only if everybody has delivered an image for it, and the framebuffer is the
composite of exactly these images. Else it names those that were dropped in this call, if any, or one
participant that is not live any more, or says that nobody is live; and it does so if nobody was live. A
call without an answer is one whose images have no composite. Participants that serve sessions are never
ahead of the frame. -/
theorem shows_complete_or_refuses {net : Network} {config : ClusterConfig} {preview : Preview}
    {plan : Plan} {connections : List Connection} {s₀ : System}
    (hsetup : (Setup.run net config preview).outcome = .ok (plan, connections))
    (h₀ : System.ofPlan config plan connections = .ok s₀) (hrun : Run keeps s₀ s)
    (hidle : s.phase = .idle) (hcall : Within keeps (s.start (.render view)) t) :
    (t.phase = .idle → ∃ r, t.replies = s.replies ++ [.frame r] ∧
      (∀ e, r = .error e → t.coordinator.framebuffer = s.coordinator.framebuffer) ∧
      (config.policy = .abort →
        (∀ stats, r = .ok stats → stats.frame = s.coordinator.frameIndex + 1 ∧
          ∃ images, AllDeliver keeps s view t images ∧
            s.coordinator.compositor.composite s.coordinator.framebuffer
              s.coordinator.config.background images = .ok t.coordinator.framebuffer) ∧
        (∀ e, r = .error e → Refuses keeps s view t e)) ∧
      (s.liveParticipants = [] → r = .error .noParticipants)) ∧
    (∀ f, t.phase = .crashed f → config.policy = .abort → ∃ images,
      AllDeliver keeps s view t images ∧
        s.coordinator.compositor.composite s.coordinator.framebuffer
          s.coordinator.config.background images = .error f) ∧
    (s.coordinator.partition.ordered view.eye s.coordinator.compositor.order).Perm
      (List.range s.coordinator.participantCount) ∧
    ∀ ps : Participants, ps.Connected s₀ →
      (∀ p accepted sent, keeps p accepted sent → ps.behaviour p accepted sent) → ∀ p, ¬ t.Ahead p := by
  have hs := (sound_of_setup hsetup h₀).run hrun
  have hpolicy : s.coordinator.config.policy = config.policy := by
    have hfixed := congrArg (fun x => x.2.2) hrun.fixed
    exact hfixed.trans (fixed_of_ofPlan h₀).2.2
  obtain ⟨hrendering, ht⟩ := rendering_of_within hs hidle hcall
  refine ⟨fun hend => ?_, fun f hcrash habort => ?_, hs.order view.eye, fun ps hps hkeeps => ?_⟩
  · have hlive : ∀ {r}, t.replies = s.replies ++ [.frame r] → s.liveParticipants = [] →
        r = .error .noParticipants := by
      intro r hr hnobody
      rcases live_of_within hs hidle hcall with (hph | ⟨_, _, hph, -⟩) | ⟨-, l, hl⟩ | hne
      · cases hend.symm.trans hph
      · cases hend.symm.trans hph
      · obtain ⟨-, hlast⟩ := List.append_inj' (hr.symm.trans hl) rfl
        cases hlast
        rfl
      · exact absurd hnobody hne
    rcases hrendering.ended hend with ⟨hnobody, hbooks, hr⟩ |
      ⟨v, evicted, lost, g, found, r, hv, hstep, hph, hharvest, hf, hr⟩
    · refine ⟨_, hr, fun e _ => framebuffer_of_books hbooks, fun _ => ⟨nofun, fun e he => ?_⟩, hlive hr⟩
      cases he
      exact .noParticipants hnobody
    · have hevicts := evicts_of_finish hv hph hstep hf hend hr
      obtain ⟨-, hshut⟩ := (rendering_of_within hs hidle hv).2.named_of_finish hph hstep
      have hcount := (hcall.call hidle).participantCount
      obtain ⟨hframe, ⟨-, hmissing, hkept, rfl⟩ | ⟨hcomplete, hshown, rfl⟩⟩ := hharvest.answers hf
      · refine ⟨_, hr, fun e _ => hkept, fun _ => ⟨nofun, fun e he => ?_⟩, hlive hr⟩
        cases he
        exact hharvest.refuses hs hidle hframe hcount hevicts hshut hmissing
      · refine ⟨_, hr, nofun, fun habort => ⟨fun stats hstats => ?_, nofun⟩, hlive hr⟩
        cases hstats
        exact ⟨rfl, _, hharvest.allDeliver (hcomplete (hpolicy.trans habort)), hshown⟩
  · cases hrendering with
    | crashed hph hharvest hf =>
      cases hcrash.symm.trans hph
      obtain ⟨hcomplete, hnone⟩ := hharvest.crashes hf
      exact ⟨_, hharvest.allDeliver (hcomplete (hpolicy.trans habort)), hnone⟩
    | looking hph =>
      rw [hcrash] at hph
      rcases hph with hph | ⟨_, _, hph⟩ <;> cases hph
    | preparing hph =>
      rw [hcrash] at hph
      exact hph.elim
    | nobody hph | gathering hph | finished hph => cases hcrash.symm.trans hph
  · exact ((conduct_of_connected hps).run ((hrun.trans (hcall.call hidle)).mono hkeeps)).not_ahead

end System

namespace Duo

/-- The two participants under another configuration, before any operation. -/
def startOf (config : ClusterConfig) : Option System :=
  match (Setup.run network config preview).outcome with
  | .ok (plan, connections) => (System.ofPlan config plan connections).toOption
  | .error _ => none

theorem setup_of_startOf {config : ClusterConfig} {s : System} (h : startOf config = some s) :
    ∃ plan connections, (Setup.run network config preview).outcome = .ok (plan, connections) ∧
      System.ofPlan config plan connections = .ok s := by
  unfold startOf at h
  split at h
  · rename_i plan connections hsetup
    exact ⟨plan, connections, hsetup, ok_of_toOption h⟩
  · cases h

theorem connected_of_startOf {config : ClusterConfig} {s : System} (h : startOf config = some s) :
    participants.Connected s := by
  obtain ⟨plan, connections, hsetup, hs⟩ := setup_of_startOf h
  refine ⟨network, config, preview, plan, connections, ?_, hsetup, hs⟩
  intro p a peer hp
  cases hp
  rfl

/-- A frame that participant 1 misses. Its connection is closed, and its worker leaves. -/
def missedFrame : List (System → Option Move) :=
  List.replicate 8 turn ++ arrival 0 ++ [fun _ => some .timeout] ++ List.replicate 8 turn ++
    List.replicate 5 (fun _ => some (.worker 1)) ++ List.replicate 6 turn

/-- They under the policy that refuses frames with missing images. -/
def strict : ClusterConfig := { config with policy := .abort }

/-- The bytes of a participant's image. -/
def answer : List UInt8 := (Message.image { rect := ⟨0, 0, 1, 1⟩, colour := #[10, 0, 0, 128] }).frame

/-- Everybody delivers for the frame, and participant 0 sends one image more than it was asked for. -/
def surplus : List Move :=
  List.replicate 8 .coordinator ++ .deliver 0 (answer ++ answer) :: List.replicate 3 (.worker 0) ++
    .deliver 1 answer :: List.replicate 3 (.worker 1)

/-- The worker of participant 0 stores the second image before the coordinator takes the first one. -/
def overtaking : List Move := List.replicate 3 (.worker 0) ++ List.replicate 5 .coordinator

end Duo

/-- The failure that is answered. -/
def Reply.failure? : Reply → Option ClusterError
  | frame (.error e) | done (.error e) => some e
  | _ => none

namespace System

/-- The frame is refused, and names the participant that has missed it. -/
theorem shows_complete_or_refuses_missed : ∃ s t, Duo.startOf Duo.strict = some s ∧
    (s.start (.render .default)).follow Duo.participants Duo.missedFrame = some t ∧
    t.coordinator.framebuffer = s.coordinator.framebuffer ∧
    Refuses Duo.participants.behaviour s .default t (.frameTimeout 1 [1]) ∧ ∀ p, ¬ t.Ahead p := by
  have hrun : ((Duo.startOf Duo.strict).bind fun s =>
      ((s.start (.render .default)).follow Duo.participants Duo.missedFrame).map fun t =>
        (s.phase, t.phase, s.replies.map Reply.failure?, t.replies.map Reply.failure?)) =
      some (.idle, .idle, [], [some (.frameTimeout 1 [1])]) := by decide +kernel
  obtain ⟨s, hs, hrun⟩ := Option.bind_eq_some_iff.1 hrun
  obtain ⟨t, hfollow, hrun⟩ := Option.map_eq_some_iff.1 hrun
  simp only [Prod.mk.injEq] at hrun
  obtain ⟨hidle, hend, hbefore, hafter⟩ := hrun
  obtain ⟨plan, connections, hsetup, h₀⟩ := Duo.setup_of_startOf hs
  obtain ⟨hanswer, -, -, hahead⟩ :=
    shows_complete_or_refuses hsetup h₀ (.refl s) hidle (follow_within hfollow)
  obtain ⟨r, hr, hkept, hstrict, -⟩ := hanswer hend
  have hfailed : Reply.failure? (.frame r) = some (.frameTimeout 1 [1]) := by
    rw [hr, List.map_append, hbefore] at hafter
    exact List.singleton_inj.1 hafter
  obtain rfl : r = .error (.frameTimeout 1 [1]) := by
    cases r with
    | ok stats => cases hfailed
    | error e => exact congrArg Except.error (Option.some.inj hfailed)
  exact ⟨s, t, hs, hfollow, hkept _ rfl, (hstrict rfl).2 _ rfl,
    hahead Duo.participants (Duo.connected_of_startOf hs) fun _ _ _ => id⟩

/-- The given moves inside an operation, if they are possible. -/
def play (s : System) : List Move → Option System
  | [] => some s
  | m :: script => do
    guard (s.phase ≠ .idle)
    let t ← s.move m
    t.play script

theorem play_within {script : List Move} (h : s.play script = some t) : Within anything s t := by
  suffices hrun : ∀ {u}, Within anything u s → Within anything u t from hrun .refl
  intro u hu
  induction script generalizing s with
  | nil =>
    cases h
    exact hu
  | cons m script ih =>
    simp only [play, Option.bind_eq_bind, Option.bind_eq_some_iff, Option.guard_eq_some'] at h
    obtain ⟨-, hne, v, hm, hrest⟩ := h
    exact ih hrest (hu.tail hne (.mk m hm fun _ _ _ _ _ => trivial))

/-- A participant answers one camera with two images. Everybody has delivered for the frame, and yet it is
refused; it names that participant, which is live. -/
theorem shows_complete_or_refuses_ahead : ∃ s t, Duo.startOf Duo.strict = some s ∧ s.phase = .idle ∧
    Within anything (s.start (.render .default)) t ∧ t.phase = .idle ∧
    (∃ images, AllDeliver anything s .default t images) ∧
    t.replies.map Reply.failure? = s.replies.map Reply.failure? ++ [some (.participantLost 0)] ∧
    t.liveParticipants = [0, 1] := by
  have hrun : ((Duo.startOf Duo.strict).bind fun s =>
      ((s.start (.render .default)).play Duo.surplus).bind fun u => (u.play Duo.overtaking).bind fun t =>
        (u.pool.slots.fresh 0 (s.coordinator.frameIndex + 1)).bind fun first =>
          (u.pool.slots.fresh 1 (s.coordinator.frameIndex + 1)).map fun second =>
            ([s.phase, t.phase], [s.replies.map Reply.failure?, t.replies.map Reply.failure?],
              [s.coordinator.partition.ordered View.default.eye s.coordinator.compositor.order,
                t.liveParticipants])) =
      some ([.idle, .idle], [[], [some (.participantLost 0)]], [[1, 0], [0, 1]]) := by decide +kernel
  obtain ⟨s, hs, hrun⟩ := Option.bind_eq_some_iff.1 hrun
  obtain ⟨u, hu, hrun⟩ := Option.bind_eq_some_iff.1 hrun
  obtain ⟨t, ht, hrun⟩ := Option.bind_eq_some_iff.1 hrun
  obtain ⟨first, hfirst, hrun⟩ := Option.bind_eq_some_iff.1 hrun
  obtain ⟨second, hsecond, hrun⟩ := Option.map_eq_some_iff.1 hrun
  simp only [Prod.mk.injEq, List.cons.injEq, and_true] at hrun
  obtain ⟨⟨hidle, hend⟩, ⟨hbefore, hafter⟩, horder, hlive⟩ := hrun
  have hdeliver : ∀ {p image}, u.pool.slots.fresh p (s.coordinator.frameIndex + 1) = some image →
      Delivers anything s .default t p image := fun h => ⟨u, play_within hu, play_within ht, h⟩
  refine ⟨s, t, hs, hidle, (play_within hu).trans (play_within ht), hend, ⟨[second, first], ?_⟩, ?_, hlive⟩
  · rw [AllDeliver, horder]
    exact .cons (hdeliver hsecond) (.cons (hdeliver hfirst) .nil)
  · rw [hbefore, hafter]
    rfl

end System
end SortLast
