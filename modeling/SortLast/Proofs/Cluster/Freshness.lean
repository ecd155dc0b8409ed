import SortLast.Cluster.Schedule
import SortLast.Proofs.Cluster.Calls

/-!
# Fresh images

An image that counts as fresh is the answer to the camera of the same call. So what a frame is made of
depends on what participants answer and on who was found live, and not on the order or the moments in
which images arrive.

* `System.Heard.fresh`: a fresh image answers the camera of this call.
* `Participants.expected`: the image that is expected from a participant.
* `Coordinator.gatherAll`: all images of a frame, gathered one after the other.
* `System.Settled`: the invariant of a frame once every live participant has delivered.
* `System.InTime`: a call in which every live participant delivers before the time runs out.
* `System.render_fresh`: both properties, for all runs; `Duo` is a cluster of two participants.
-/

namespace SortLast

namespace System

variable {ps : Participants} {s t u : System} {view : View} {p : Nat}

/-! ### One image -/

theorem received_of_not_lt (h : ¬ p < s.coordinator.participantCount) : s.received p = [] := by
  have hnone : s.coordinator.proxies[p]? = none := List.getElem?_eq_none_iff.2 (Nat.le_of_not_lt h)
  rw [System.received, System.accepted, hnone]
  rfl

/-- Between operations nobody has received more cameras than frames were begun. -/
theorem Conduct.matrixCount_le (hs : Conduct ps s) (p : Nat) :
    Command.matrixCount (s.received p) ≤ s.coordinator.frameIndex := by
  by_cases hp : p < s.coordinator.participantCount
  · obtain ⟨a, ha⟩ := hs.seated p hp
    obtain ⟨cs, hlink, hcount⟩ := hs.linked p a ha
    have hcs := hlink.received
    rw [← ha.accepted] at hcs
    rw [show s.received p = cs from hcs]
    omega
  · rw [received_of_not_lt hp]
    exact Nat.zero_le _

theorem fresh_eq_some {l : Slots} {k : Nat} {image : Image} (h : l.fresh p k = some image) :
    l.entries[p]? = some (some ⟨k, image⟩) := by
  unfold Slots.fresh Slots.get at h
  cases he : l.entries[p]? with
  | none => simp [he] at h
  | some e =>
    cases e with
    | none => simp [he] at h
    | some e =>
      by_cases hk : e.frame = k
      · simp only [he, Option.join_some, if_pos hk, Option.some.injEq] at h
        rw [← hk, ← h]
      · simp [he, hk] at h

theorem fresh_of_slot {l : Slots} {k : Nat} {image : Image}
    (h : l.entries[p]? = some (some ⟨k, image⟩)) : l.fresh p k = some image := by
  simp [Slots.fresh, Slots.get, h]

/-- A slot belongs to a seat. -/
theorem Conduct.sits_of_slot (ht : Conduct ps t) {e : Option SlotEntry}
    (h : t.pool.slots.entries[p]? = some e) : ∃ a, t.Sits p a ∧ a.slot = e := by
  have hp : p < t.pool.slots.size := (List.getElem?_eq_some_iff.1 h).1
  rw [ht.size] at hp
  obtain ⟨a, ha⟩ := ht.seated p hp
  exact ⟨a, ha, Option.some.inj (ha.slot.symm.trans h)⟩

/-- An image that was delivered for the frame is the answer to the camera that was sent for it. -/
theorem Heard.fresh {told : Nat → Prop} (h : Heard ps s view told t) (hs : Conduct ps s)
    (ht : Conduct ps t) {image : Image}
    (hf : t.pool.slots.fresh p (s.coordinator.frameIndex + 1) = some image) :
    told p ∧ t.received p = s.received p ++ [.ofView view] ∧
      ∃ answer, ps.answerTo? p (s.received p) view = some answer ∧ image = answer.attributed p := by
  obtain ⟨a, ha, hslot⟩ := ht.sits_of_slot (fresh_eq_some hf)
  have hcount := hs.matrixCount_le p
  have hlen : (ps.images p (s.received p)).length ≤ s.coordinator.frameIndex :=
    (Session.images_length_le _ _ _).trans hcount
  -- the number in the slot is the number of the image among all that the participant answers
  have hnumber : ∀ {cs}, Seat.Link ps p a cs → ∃ i,
      (ps.images p cs)[s.coordinator.frameIndex]? = some i ∧ image = i.attributed p := by
    intro cs hlink
    rcases hlink.slot_cases with ⟨-, hnone⟩ | ⟨k, i, -, hi, hk⟩
    · cases hnone.symm.trans hslot
    · obtain ⟨rfl, rfl⟩ : k = s.coordinator.frameIndex ∧ i.attributed p = image := by
        simpa using hk.symm.trans hslot
      exact ⟨i, hi, rfl⟩
  rcases h p a ha with hlink | ⟨htold, hlink⟩
  · obtain ⟨i, hi, -⟩ := hnumber hlink
    rw [List.getElem?_eq_none_iff.2 hlen] at hi
    cases hi
  · obtain ⟨i, hi, himage⟩ := hnumber hlink
    rw [Participants.images_concat_view, List.getElem?_append_right hlen] at hi
    have hmem := Option.mem_toList.1 (List.mem_of_getElem? hi)
    refine ⟨htold, ?_, i, hmem, himage⟩
    have hreceived := hlink.received
    rw [← ha.accepted] at hreceived
    exact hreceived

/-! ### All images of a frame -/

end System

/-- The image that is expected from a participant for the frame of `view` that a call in `s` begins, if
the participants in `live` are found live. -/
def Participants.expected (ps : Participants) (s : System) (view : View) (live : List Nat) (p : Nat) :
    Option Image :=
  if p ∈ live then (ps.answerTo? p (s.received p) view).map (·.attributed p) else none

namespace Coordinator

/-- Take the contributions of some participants, one after the other. -/
def gatherAll (images : Nat → Option Image) (c : Coordinator) (g : Gathering) :
    List Nat → Gathering × Coordinator
  | [] => (g, c)
  | p :: rest =>
    gatherAll images (c.gather g p (images p)).2 (c.gather g p (images p)).1 rest

/-- All contributions to the frame of `view` that the coordinator begins next. -/
def gathered (c : Coordinator) (view : View) (images : Nat → Option Image) : Gathering × Coordinator :=
  c.begun.gatherAll images {} (c.partition.ordered view.eye c.compositor.order)

/-- The order of a frame and its framebuffer do not depend on who was dropped or lost. -/
theorem finish_congr {c d d' : Coordinator} {view : View} {evicted evicted' lost lost' : List Nat}
    {g : Gathering} {r r' : Except ClusterError FrameStats}
    (h : c.finish view evicted lost g = .ok (r, d))
    (h' : c.finish view evicted' lost' g = .ok (r', d')) :
    r.toOption.map FrameStats.order = r'.toOption.map FrameStats.order ∧ d = d' := by
  unfold finish at h h'
  by_cases habort : c.config.policy = .abort ∧ g.missing ≠ []
  · rw [if_pos habort] at h h'
    cases h
    cases h'
    exact ⟨rfl, rfl⟩
  · rw [if_neg habort] at h h'
    cases hc : c.compositor.composite c.framebuffer c.config.background g.images with
    | error f =>
      rw [hc] at h
      cases h
    | ok framebuffer =>
      rw [hc] at h h'
      cases h
      cases h'
      exact ⟨rfl, rfl⟩

end Coordinator

namespace System

variable {ps : Participants} {s t u : System} {view : View} {p : Nat} {live : List Nat}

/-- A frame whose live participants have all delivered. What is left to gather leads to the expected
images, and the reply follows from them. -/
structure Settled (ps : Participants) (s : System) (view : View) (live : List Nat) (t : System) :
    Prop where
  serving : Serving ps s view live t
  delivered : ∀ p ∈ live, ∃ a, t.Sits p a ∧ s.coordinator.frameIndex + 1 ≤ a.worker.delivered
  progress : t.phase.Waits view ∨
    (∃ evicted lost rest g, t.phase = .gathering view evicted lost rest g ∧ t.replies = s.replies ∧
      t.coordinator.books.gatherAll (ps.expected s view live) g rest =
        s.coordinator.gathered view (ps.expected s view live)) ∨
    (t.phase = .idle ∧ ∃ evicted lost r,
      (s.coordinator.gathered view (ps.expected s view live)).2.finish view evicted lost
        (s.coordinator.gathered view (ps.expected s view live)).1 = .ok (r, t.coordinator.books) ∧
      t.replies = s.replies ++ [.frame r]) ∨
    ∃ f, t.phase = .crashed f

/-- Once every live participant has delivered, the fresh images are the expected ones. -/
theorem Settled.fresh (h : Settled ps s view live t) (hs : Conduct ps s) (ht : Conduct ps t) (p : Nat) :
    t.pool.slots.fresh p (s.coordinator.frameIndex + 1) = ps.expected s view live p := by
  have hheard := h.serving.heard
  cases hf : t.pool.slots.fresh p (s.coordinator.frameIndex + 1) with
  | some image =>
    obtain ⟨⟨hlive, -⟩, -, answer, hanswer, rfl⟩ := hheard.fresh hs ht hf
    rw [Participants.expected, if_pos hlive, hanswer]
    rfl
  | none =>
    rw [Participants.expected]
    by_cases hlive : p ∈ live
    -- the number of images delivered is between the number of the frame and that of the cameras
    · exfalso
      obtain ⟨a, ha, hle⟩ := h.delivered p hlive
      obtain ⟨cs, hlink, hcount⟩ := ht.linked p a ha
      have hdelivered := hlink.delivered_le
      have hframe := h.serving.frame
      rcases hlink.slot_cases with ⟨hzero, -⟩ | ⟨k, i, hk, -, hslot⟩
      · omega
      · obtain rfl : k = s.coordinator.frameIndex := by omega
        rw [fresh_of_slot (ha.slot.trans (congrArg some hslot))] at hf
        cases hf
    · rw [if_neg hlive]

/-- What follows when images are gathered. -/
theorem Turn.of_gathering {evicted lost rest : List Nat} {g : Gathering} (h : Turn t u)
    (ht : t.phase = .gathering view evicted lost rest g) :
    (∃ p rest', rest = p :: rest' ∧ u.replies = t.replies ∧
      u.phase = .gathering view evicted lost rest' (t.coordinator.books.gather g p
        (t.pool.slots.fresh p t.coordinator.frameIndex)).1 ∧
      u.coordinator.books = (t.coordinator.books.gather g p
        (t.pool.slots.fresh p t.coordinator.frameIndex)).2) ∨
    (rest = [] ∧ u.phase = .idle ∧ ∃ r, u.replies = t.replies ++ [.frame r] ∧
      t.coordinator.books.finish view evicted lost g = .ok (r, u.coordinator.books)) ∨
    (rest = [] ∧ ∃ f, u.phase = .crashed f ∧
      t.coordinator.books.finish view evicted lost g = .error f) := by
  cases h with
  | gather hs hu hbooks _ hreplies =>
    cases ht.symm.trans hs
    exact .inl ⟨_, _, rfl, hreplies, hu, hbooks⟩
  | finish hs hf hr =>
    cases ht.symm.trans hs
    exact .inr (.inl ⟨rfl, hr.phase, _, hr.replies, hf⟩)
  | crash hs hu _ hf =>
    cases ht.symm.trans hs
    exact .inr (.inr ⟨rfl, _, hu, hf⟩)
  | wait hs | refuse hs =>
    rw [ht] at hs
    exact hs.elim
  | reap hs | look hs | nobody hs | begin hs | send hs | sent hs | collect hs | tell hs | told hs
  | exit hs | exited hs | close hs | closeBarrier hs | join hs | joined hs => cases ht.symm.trans hs

/-- What follows when the coordinator waits at an open barrier. -/
theorem Turn.of_waits (h : Turn t u) (ht : t.phase.Waits view) (hopen : t.pool.barrier.closed = false) :
    u.phase.Waits view ∨ SameBooks t u ∧ ∃ evicted lost, u.phase = .gathering view evicted lost
      (t.coordinator.partition.ordered view.eye t.coordinator.compositor.order) {} := by
  cases h with
  | wait hs hu =>
    obtain rfl := ht.prepares.serves.eq_of_waits hs
    exact .inl hu
  | refuse _ hclosed =>
    rw [hopen] at hclosed
    exact absurd hclosed Bool.false_ne_true
  | collect hs hu same =>
    rw [hs] at ht
    obtain rfl := ht
    exact .inr ⟨same, _, _, hu⟩
  | reap hs | look hs | nobody hs | begin hs | send hs | sent hs | gather hs | finish hs | crash hs
  | tell hs | told hs | exit hs | exited hs | close hs | closeBarrier hs | join hs | joined hs =>
    rw [hs] at ht
    exact ht.elim

/-- A crash is final. -/
theorem Turn.not_crashed {f : Fault} (h : Turn t u) (ht : t.phase = .crashed f) : False := by
  cases h with
  | wait hs | refuse hs =>
    rw [ht] at hs
    exact hs
  | reap hs | look hs | nobody hs | begin hs | send hs | sent hs | collect hs | gather hs | finish hs
  | crash hs | tell hs | told hs | exit hs | exited hs | close hs | closeBarrier hs | join hs
  | joined hs => cases ht.symm.trans hs

/-- A frame whose live participants have all delivered while the coordinator waits. -/
theorem settled_of_fresh (h : Serving ps s view live t) (ht : Conduct ps t)
    (hwaits : t.phase.Waits view)
    (hfresh : ∀ p ∈ live, t.pool.slots.isFresh p t.coordinator.frameIndex) :
    Settled ps s view live t := by
  refine ⟨h, ?_, .inl hwaits⟩
  intro p hp
  obtain ⟨image, himage⟩ := Option.isSome_iff_exists.1 (hfresh p hp)
  obtain ⟨a, ha, hslot⟩ := ht.sits_of_slot (fresh_eq_some himage)
  refine ⟨a, ha, ?_⟩
  obtain ⟨cs, hlink, -⟩ := ht.linked p a ha
  rw [← h.frame]
  rcases hlink.slot_cases with ⟨-, hnone⟩ | ⟨k, i, hk, -, hsome⟩
  · cases hnone.symm.trans hslot
  · have hnumber := hsome.symm.trans hslot
    simp only [Option.some.injEq, SlotEntry.mk.injEq] at hnumber
    omega

/-- A move during such a frame. -/
theorem Settled.step (h : Settled ps s view live t) (hs : Conduct ps s) (ht : Conduct ps t)
    (hne : t.phase ≠ .idle) (hstep : Step ps.behaviour t u) : Settled ps s view live u := by
  have hserving := h.serving.step ht hne hstep
  have hdelivered : ∀ {may : Nat → Command → Prop}, Changes may ps.behaviour t u →
      ∀ p ∈ live, ∃ b, u.Sits p b ∧ s.coordinator.frameIndex + 1 ≤ b.worker.delivered := by
    intro may hc p hp
    obtain ⟨a, ha, hle⟩ := h.delivered p hp
    obtain ⟨b, hb, hseat⟩ := hc.seat p a ha
    exact ⟨b, hb, hle.trans hseat.delivered_le⟩
  rcases step_inside hstep hne with ⟨hturn, hc⟩ | ⟨hph, same, hc⟩
  · refine ⟨hserving, hdelivered hc, ?_⟩
    rcases h.progress with hw | ⟨evicted, lost, rest, g, hph, hreplies, hleft⟩ | ⟨hidle, -⟩ | ⟨f, hph⟩
    -- the end of the wait fixes the order, one image of it is gathered at a time, then the reply follows
    · obtain ⟨hbooks, hreplies⟩ := h.serving.prepared hw.prepares
      rcases hturn.of_waits hw h.serving.unclosed with hu | ⟨same, evicted, lost, hu⟩
      · exact .inl hu
      · refine .inr (.inl ⟨evicted, lost, _, _, hu, same.replies.trans hreplies, ?_⟩)
        have hpartition := congrArg Coordinator.partition hbooks
        have hcompositor := congrArg Coordinator.compositor hbooks
        rw [show t.coordinator.partition = s.coordinator.partition from hpartition,
          show t.coordinator.compositor = s.coordinator.compositor from hcompositor, same.books, hbooks]
        rfl
    · rcases hturn.of_gathering hph with ⟨p, rest', rfl, hr, hu, hbooks⟩ | ⟨rfl, hu, r, hr, hf⟩ | ⟨-, f, hu, -⟩
      · rw [h.serving.frame, h.fresh hs ht] at hu hbooks
        refine .inr (.inl ⟨evicted, lost, rest', _, hu, hr.trans hreplies, ?_⟩)
        rw [hbooks]
        exact hleft
      · refine .inr (.inr (.inl ⟨hu, evicted, lost, r, ?_, by rw [hr, hreplies]⟩))
        rw [← hleft]
        exact hf
      · exact .inr (.inr (.inr ⟨f, hu⟩))
    · exact absurd hidle hne
    · exact (hturn.not_crashed hph).elim
  · refine ⟨hserving, hdelivered hc, ?_⟩
    rw [hph, same.books, same.replies]
    exact h.progress

theorem Settled.within (h : Settled ps s view live t) (hs : Conduct ps s) (ht : Conduct ps t)
    (hw : Within ps.behaviour t u) : Settled ps s view live u := by
  induction hw with
  | refl => exact h
  | tail hrun hne hstep ih => exact ih.step hs (ht.within hrun) hne hstep

/-! ### Calls in time -/

/-- The call of `view` in `s` has ended in `t` with the reply `r`. The participants in `live` were found
live, and each of them had delivered its image before the time for the images ran out. -/
def InTime (keeps : Behaviour) (s : System) (view : View) (live : List Nat)
    (r : Except ClusterError FrameStats) (t : System) : Prop :=
  ∃ v u, Within keeps (s.start (.render view)) v ∧
    v.phase = .surveying view v.coordinator.participantCount live ∧ Within keeps v u ∧
    (u.phase = .meeting view ∨ ∃ generation, u.phase = .awaiting view generation) ∧
    (∀ p ∈ live, u.pool.slots.isFresh p u.coordinator.frameIndex) ∧
    Within keeps u t ∧ t.phase = .idle ∧ t.replies = s.replies ++ [.frame r]

/-- Once the coordinator knows who is live, it serves these participants, if it does not give up. -/
theorem Looking.within (h : Looking ps s view t) (ht : Conduct ps t)
    (hph : t.phase = .surveying view t.coordinator.participantCount live)
    (hw : Within ps.behaviour t u) :
    (Looking ps s view u ∧ u.phase = .surveying view u.coordinator.participantCount live) ∨
      u.phase = .idle ∨ Serving ps s view live u := by
  induction hw with
  | refl => exact .inl ⟨h, hph⟩
  | @tail v u hrun hne hstep ih =>
    have hv := ht.within hrun
    rcases ih with ⟨hl, hphase⟩ | hidle | hserving
    · rcases step_inside hstep hne with ⟨hturn, hc⟩ | ⟨hsame, -, hc⟩
      · rcases hl.step hv hstep with hu | hr | ⟨next, l, hphase', -, -, hserving⟩
        · rcases hturn.of_surveying hphase with ⟨hlt, -⟩ | ⟨-, -, -, hr⟩ | ⟨-, -, hsend, -⟩
          · exact absurd hlt (Nat.lt_irrefl _)
          · exact .inr (.inl hr.phase)
          · rcases hu.phase with hp | ⟨_, _, hp⟩ <;> cases hp.symm.trans hsend
        · exact .inr (.inl hr.phase)
        · cases hphase.symm.trans hphase'
          exact .inr (.inr hserving)
      · rcases hl.step hv hstep with hu | hr | ⟨next, l, hphase', -, hsend, -⟩
        · rw [← hc.count, ← hsame] at hphase
          exact .inl ⟨hu, hphase⟩
        · exact .inr (.inl hr.phase)
        · rw [hsame, hphase] at hsend
          cases hsend
    · exact absurd hidle hne
    · exact .inr (.inr (hserving.step hv hne hstep))

/-- In a call in time, the order of the frame and its framebuffer follow from the coordinator's state
before the call, the participants found live, and what they answer. -/
theorem InTime.outcome (hs : Conduct ps s) (hidle : s.phase = .idle)
    {r : Except ClusterError FrameStats} (h : InTime ps.behaviour s view live r t) :
    ∃ evicted lost,
      (s.coordinator.gathered view (ps.expected s view live)).2.finish view evicted lost
        (s.coordinator.gathered view (ps.expected s view live)).1 = .ok (r, t.coordinator.books) := by
  obtain ⟨v, u, hv, hfound, hu, hwaits, hfresh, ht, htidle, hreply⟩ := h
  -- looking up to `v`, serving in `u`, and settled from then on
  obtain ⟨hcalled, hcv⟩ := called_of_within hs hidle hv
  have hlooking : Looking ps s view v := by
    cases hcalled with
    | looking hl => exact hl
    | serving hserving =>
      have hphase := hserving.phase
      rw [hfound] at hphase
      exact hphase.elim
    | refused hr => cases hfound.symm.trans hr.phase
  have hcu := hcv.within hu
  have hserving : Serving ps s view live u := by
    rcases hlooking.within hcv hfound hu with ⟨-, hp⟩ | hp | hserving
    · rcases hwaits with hw | ⟨generation, hw⟩ <;> cases hp.symm.trans hw
    · rcases hwaits with hw | ⟨generation, hw⟩ <;> cases hp.symm.trans hw
    · exact hserving
  have huwaits : u.phase.Waits view := by
    rcases hwaits with hw | ⟨generation, hw⟩ <;> rw [hw] <;> rfl
  have hsettled := settled_of_fresh hserving hcu huwaits hfresh
  have hprogress := (hsettled.within hs hcu ht).progress
  rw [htidle] at hprogress
  rcases hprogress with hw | ⟨_, _, _, _, hph, -⟩ | ⟨-, evicted, lost, r', hf, hreply'⟩ | ⟨f, hph⟩
  · exact hw.elim
  · cases hph
  · obtain rfl : r = r' := by
      have hlast := List.append_cancel_left (hreply.symm.trans hreply')
      simpa using hlast
    exact ⟨evicted, lost, hf⟩
  · cases hph

theorem received_congr {s' : System} (h : s'.coordinator = s.coordinator) :
    s'.received = s.received := by
  funext p
  rw [System.received, System.received, System.accepted, System.accepted, h]

/-- In every run of a cluster of connected participants, an image that counts as fresh in a call of
`render` is the participant's answer to the camera that this call has sent, and it is the image that is
composited. So the order of a frame for which every live participant delivers in time, and its
framebuffer, are the same in all runs that lead from the same state of the coordinator through such
frames, however images are delayed. -/
theorem render_fresh (ps : Participants) {s₀ s : System} (h₀ : ps.Connected s₀)
    (hs : Run ps.behaviour s₀ s) (hidle : s.phase = .idle) (view : View) :
    (∀ t, Within ps.behaviour (s.start (.render view)) t →
      (∀ p image, t.pool.slots.fresh p (s.coordinator.frameIndex + 1) = some image →
        t.received p = s.received p ++ [.ofView view] ∧
          ∃ answer, ps.answerTo? p (s.received p) view = some answer ∧
            image = answer.attributed p) ∧
      ∀ evicted lost p rest g, t.phase = .gathering view evicted lost (p :: rest) g →
        t.coordinator.frameIndex = s.coordinator.frameIndex + 1 ∧
          ∀ image, t.pool.slots.fresh p t.coordinator.frameIndex = some image →
            ∃ u, t.advance = some u ∧ u.phase = .gathering view evicted lost rest { g with
              order := g.order ++ [p]
              images := g.images ++ [image]
              composited := g.composited + 1 }) ∧
    ∀ s', Run ps.behaviour s₀ s' → s'.phase = .idle → s'.coordinator = s.coordinator →
      ∀ live r r' t t', InTime ps.behaviour s view live r t → InTime ps.behaviour s' view live r' t' →
        r.toOption.map FrameStats.order = r'.toOption.map FrameStats.order ∧
          t.coordinator.framebuffer = t'.coordinator.framebuffer := by
  have hconduct := (conduct_of_connected h₀).run hs
  constructor
  · intro t ht
    obtain ⟨hcalled, hct⟩ := called_of_within hconduct hidle ht
    refine ⟨fun p image hf => (hcalled.heard.fresh hconduct hct hf).2, ?_⟩
    intro evicted lost p rest g hph
    constructor
    · cases hcalled with
      | looking hl =>
        rcases hl.phase with hp | ⟨next, live, hp⟩ <;> cases hph.symm.trans hp
      | serving hserving => exact hserving.frame
      | refused hr => cases hph.symm.trans hr.phase
    · intro image hf
      refine ⟨_, by rw [advance, hph], ?_⟩
      simp only [Coordinator.gather, hf, Gathering.add, goTo]
  · intro s' hs' hidle' hsame live r r' t t' ht ht'
    have hconduct' := (conduct_of_connected h₀).run hs'
    obtain ⟨evicted, lost, hf⟩ := ht.outcome hconduct hidle
    obtain ⟨evicted', lost', hf'⟩ := ht'.outcome hconduct' hidle'
    have hexpected : ps.expected s' view live = ps.expected s view live := by
      funext p
      rw [Participants.expected, Participants.expected, received_congr hsame]
    -- both runs finish the frame that the common state of the coordinator determines
    rw [hsame, hexpected] at hf'
    obtain ⟨horder, hbooks⟩ := Coordinator.finish_congr hf hf'
    have hframebuffer := congrArg Coordinator.framebuffer hbooks
    exact ⟨horder, hframebuffer⟩

/-! ### Two participants -/

/-- True if the participant that has made a move has kept to its session. -/
def keeps (ps : Participants) (t : System) : Move → Bool
  | .deliver p _ => t.sent[p]?.all fun all => all.isPrefixOf ((ps.peer p).respond (t.accepted p)).bytes
  | _ => true

/-- The moves of a script inside an operation, if they are possible and participants keep to their
sessions. -/
def follow (ps : Participants) (s : System) : List (System → Option Move) → Option System
  | [] => some s
  | next :: script => do
    guard (s.phase ≠ .idle)
    let m ← next s
    let t ← s.move m
    guard (t.keeps ps m)
    t.follow ps script

theorem follow_within {script : List (System → Option Move)} (h : s.follow ps script = some t) :
    Within ps.behaviour s t := by
  suffices hrun : ∀ {u}, Within ps.behaviour u s → Within ps.behaviour u t from hrun .refl
  intro u hu
  induction script generalizing s with
  | nil =>
    cases h
    exact hu
  | cons next script ih =>
    simp only [follow, Option.bind_eq_bind, Option.bind_eq_some_iff, Option.guard_eq_some'] at h
    obtain ⟨-, hne, m, -, v, hm, -, hkeeps, hrest⟩ := h
    refine ih hrest (hu.tail hne (.mk m hm ?_))
    intro p bytes hdeliver all hall
    subst hdeliver
    rw [System.keeps, hall, Option.all_some] at hkeeps
    exact List.isPrefixOf_iff_prefix.1 hkeeps

end System

namespace Duo

/-- Two participants that answer every camera with one pixel of a colour of their own. -/
def participants : Participants where
  State _ := Unit
  renderer p := ⟨fun _ _ _ =>
    (.ok { rect := ⟨0, 0, 1, 1⟩, colour := #[10 + UInt8.ofNat p, 0, 0, 128] }, ())⟩
  initial _ := ()
  sink _ := .unlimited
  unused _ := rfl

/-- A window of one pixel. -/
def config : ClusterConfig := { participants := [⟨"a", 1⟩, ⟨"b", 1⟩], width := 1, height := 1 }

/-- A network on which both participants are reached. -/
def network : Network where
  lookup _ := .ok (.v4 127 0 0 1)
  dial p _ := .ok (participants.peer p)
  listen _ := .ok []

/-- A volume of two voxels, one for each participant. -/
def preview : Preview := { volume := { dims := ⟨2, 1, 1⟩ }, capabilities := [.distributed] }

/-- The cluster before any operation. -/
def start : Option System :=
  match (Setup.run network config preview).outcome with
  | .ok (plan, connections) => (System.ofPlan config plan connections).toOption
  | .error _ => none

theorem connected_of_start {s : System} (h : start = some s) : participants.Connected s := by
  unfold start at h
  split at h
  · rename_i plan connections hsetup
    refine ⟨network, config, preview, plan, connections, ?_, hsetup, ?_⟩
    · intro p a peer hp
      cases hp
      rfl
    · cases hs : System.ofPlan config plan connections with
      | error f => simp [hs, Except.toOption] at h
      | ok s' =>
        rw [hs] at h
        cases h
        rfl
  · cases h

/-- The coordinator moves on. -/
def turn : System → Option Move := fun _ => some .coordinator

/-- A participant sends its image, and its worker takes it to the barrier. -/
def arrival (p : Nat) : List (System → Option Move) :=
  (fun s => s.nextOfPeer p (participants.peer p)) :: List.replicate 3 fun _ => some (.worker p)

/-- A frame for which the images arrive in the given order, with its reply. -/
def frame (s : System) (first second : Nat) : Option (Except ClusterError FrameStats × System) := do
  let v ← (s.start (.render .default)).follow participants [turn, turn, turn]
  guard (v.phase = .surveying .default v.coordinator.participantCount [0, 1])
  let u ← v.follow participants ([turn, turn, turn, turn] ++ arrival first ++ arrival second)
  guard (u.phase = .meeting .default)
  guard (∀ p ∈ ([0, 1] : List Nat), u.pool.slots.isFresh p u.coordinator.frameIndex)
  let t ← u.follow participants [turn, turn, turn, turn, turn]
  guard (t.phase = .idle)
  match s.replies, t.replies with
  | [], [.frame r] => some (r, t)
  | _, _ => none

theorem inTime_of_frame {s t : System} {first second : Nat} {r : Except ClusterError FrameStats}
    (h : frame s first second = some (r, t)) :
    System.InTime participants.behaviour s .default [0, 1] r t := by
  simp only [frame, Option.bind_eq_bind, Option.bind_eq_some_iff, Option.guard_eq_some'] at h
  obtain ⟨v, hv, -, hfound, u, hu, -, hmeets, -, hfresh, t', ht, -, hidle, hr⟩ := h
  split at hr
  · rename_i hs hreplies
    cases hr
    exact ⟨v, u, System.follow_within hv, hfound, System.follow_within hu, .inl hmeets, hfresh,
      System.follow_within ht, hidle, by rw [hs, hreplies]; rfl⟩
  · cases hr

end Duo

namespace System

/-- Two participants deliver in time, in either order: the frame is the same, and an image that is fresh
is the answer to its camera. -/
theorem render_fresh_either_order : ∃ s t t' r r', Duo.participants.Connected s ∧ s.phase = .idle ∧
    Duo.frame s 0 1 = some (r, t) ∧ Duo.frame s 1 0 = some (r', t') ∧
    r.toOption.map FrameStats.order = some [1, 0] ∧ r'.toOption.map FrameStats.order = some [1, 0] ∧
    t.coordinator.framebuffer = t'.coordinator.framebuffer ∧
    ∃ image, t.pool.slots.fresh 0 (s.coordinator.frameIndex + 1) = some image ∧
      ∃ answer, Duo.participants.answerTo? 0 (s.received 0) .default = some answer ∧
        image = answer.attributed 0 := by
  obtain ⟨s, hs⟩ : ∃ s, Duo.start = some s := Option.isSome_iff_exists.1 (by decide +kernel)
  have hidle : Duo.start.map System.phase = some .idle := by decide +kernel
  have hfirst : (Duo.start.bind fun s => (Duo.frame s 0 1).bind fun x =>
      (x.2.pool.slots.fresh 0 (s.coordinator.frameIndex + 1)).map fun _ =>
        x.1.toOption.map FrameStats.order) = some (some [1, 0]) := by decide +kernel
  have hsecond : (Duo.start.bind fun s => Duo.frame s 1 0).isSome := by decide +kernel
  rw [hs, Option.bind_some] at hfirst hsecond
  rw [hs] at hidle
  have hidle' : s.phase = .idle := Option.some.inj hidle
  obtain ⟨⟨r, t⟩, ht, hgot⟩ := Option.bind_eq_some_iff.1 hfirst
  obtain ⟨image, himage, horder⟩ := Option.map_eq_some_iff.1 hgot
  obtain ⟨⟨r', t'⟩, ht'⟩ := Option.isSome_iff_exists.1 hsecond
  have hconnected := Duo.connected_of_start hs
  obtain ⟨hfresh, hsame⟩ := render_fresh Duo.participants hconnected (.refl s) hidle' .default
  obtain ⟨hsameOrder, hframebuffer⟩ := hsame s (.refl s) hidle' rfl [0, 1] r r' t t'
    (Duo.inTime_of_frame ht) (Duo.inTime_of_frame ht')
  obtain ⟨v, u, hv, -, hu, -, -, hw, -⟩ := Duo.inTime_of_frame ht
  obtain ⟨-, answer, hanswer⟩ := (hfresh t ((hv.trans hu).trans hw)).1 0 image himage
  exact ⟨s, t, t', r, r', hconnected, hidle', ht, ht', horder, hsameOrder ▸ horder, hframebuffer, image,
    himage, answer, hanswer⟩

end System
end SortLast
