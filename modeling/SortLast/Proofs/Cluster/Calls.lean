import SortLast.Proofs.Cluster.Pacing

/-!
# The call of a frame

From the beginning of a frame to its reply the coordinator first looks for live participants, then
sends each of them the camera, waits, and gathers. No participant hears anything but that camera, once
and only if it was found live.

* `System.Within`: the states of a call.
* `System.Heard`: what participants have received since the call began.
* `System.Looking`, `System.Serving`: the invariants of a call, before the frame begins and after.
* `System.Called`: one of them holds in every state of a call; `System.called_of_within`.
-/

namespace SortLast

namespace Phase

/-- The frame of this view has begun, and no image was gathered yet. -/
def Prepares (view : View) : Phase → Prop
  | sending v _ => v = view
  | f => f.Waits view

/-- The frame of this view has begun, and may be over. -/
def Serves (view : View) : Phase → Prop
  | gathering v .. => v = view
  | idle | crashed _ => True
  | f => f.Prepares view

variable {f : Phase} {view v : View}

theorem Waits.prepares (h : f.Waits view) : f.Prepares view := by
  cases f with
  | sending _ _ => exact h.elim
  | _ => exact h

theorem Prepares.serves (h : f.Prepares view) : f.Serves view := by
  cases f with
  | gathering _ _ _ _ _ => exact h.elim
  | idle => trivial
  | crashed _ => trivial
  | _ => exact h

/-- A frame is of one view only. -/
theorem Serves.eq_of_waits (hs : f.Serves view) (hw : f.Waits v) : v = view := by
  cases f <;> first | exact hw.elim | exact hw.symm.trans hs

end Phase

namespace System

/-- The moves while the coordinator is inside an operation. -/
inductive Within (keeps : Behaviour) (s : System) : System → Prop
  | refl : Within keeps s s
  | tail {t u : System} : Within keeps s t → t.phase ≠ .idle → Step keeps t u → Within keeps s u

variable {keeps : Behaviour} {s t u : System}

theorem Within.trans (h : Within keeps s t) (h' : Within keeps t u) : Within keeps s u := by
  induction h' with
  | refl => exact h
  | tail _ hne hstep ih => exact ih.tail hne hstep

/-- The beginning of an operation is a move. -/
theorem step_start (hidle : s.phase = .idle) (op : Operation) : Step keeps s (s.start op) := by
  refine .mk (.ask op) (if_pos hidle) ?_
  intro p bytes h
  cases h

/-- A behaviour allows nothing that is not possible anyway. -/
theorem Step.weaken (h : Step keeps s t) : Step anything s t := by
  obtain ⟨m, hm, -⟩ := h
  exact .mk m hm fun _ _ _ _ _ => trivial

theorem Within.weaken (h : Within keeps s t) : Within anything s t := by
  induction h with
  | refl => exact .refl
  | tail _ hne hstep ih => exact ih.tail hne hstep.weaken

/-- A call is a run. -/
theorem Within.run {op : Operation} (h : Within keeps (s.start op) t) (hidle : s.phase = .idle) :
    Run anything s t := by
  induction h with
  | refl => exact (Run.refl s).tail (step_start hidle op)
  | tail _ _ hstep ih => exact ih.tail hstep.weaken

/-- A move inside an operation: a turn of the coordinator, or a move of somebody else. -/
theorem step_inside (h : Step keeps s t) (hne : s.phase ≠ .idle) :
    (Turn s t ∧ Changes s.phase.Sends keeps s t) ∨
      (t.phase = s.phase ∧ SameBooks s t ∧ Changes (fun _ _ => False) keeps s t) := by
  rcases step_cases h with hturn | ⟨hidle, -⟩ | haside
  · exact .inl hturn
  · exact absurd hidle hne
  · exact .inr haside

variable {ps : Participants} {view : View}

theorem Conduct.within (hs : Conduct ps s) (h : Within ps.behaviour s t) : Conduct ps t := by
  induction h with
  | refl => exact hs
  | tail _ _ hstep ih => exact ih.step hstep

/-! ### What participants hear -/

/-- Since state `s`, participants have heard nothing but one camera, and only those in `told` have
heard that. -/
def Heard (ps : Participants) (s : System) (view : View) (told : Nat → Prop) (t : System) : Prop :=
  ∀ p a, t.Sits p a → Seat.Link ps p a (s.received p) ∨
    told p ∧ Seat.Link ps p a (s.received p ++ [.ofView view])

variable {told told' : Nat → Prop} {may : Nat → Command → Prop}

/-- In the beginning nobody has heard anything. -/
theorem heard_start (hs : Conduct ps s) (ht : SameSeats s t) :
    Heard ps s view (fun _ => False) t := by
  intro p b hb
  obtain ⟨a, ha⟩ : ∃ a, s.Sits p a := by
    refine hs.seated p ?_
    rw [← ht.count]
    exact hb.lt_participantCount
  obtain rfl := (ht.sits ha).unique hb
  obtain ⟨cs, hlink, -⟩ := hs.linked p a ha
  have hcs := hlink.received
  rw [← ha.accepted] at hcs
  rw [show s.received p = cs from hcs]
  exact .inl hlink

/-- Participants hear what is sent to them. -/
theorem Heard.changes (h : Heard ps s view told t) (ht : Conduct ps t)
    (hc : Changes may ps.behaviour t u) (hkeep : ∀ p, told p → told' p)
    (hmay : ∀ p c, may p c → ¬ told p ∧ told' p ∧ c = .ofView view) :
    Heard ps s view told' u := by
  intro p b hb
  obtain ⟨a, ha, hstep⟩ := hc.back ht.seated hb
  rcases h p a ha with hlink | ⟨htold, hlink⟩
  · rcases hlink.step hstep with hl | ⟨c, -, hc, hl⟩
    · exact .inl hl
    · obtain ⟨-, htold, rfl⟩ := hmay p c hc
      exact .inr ⟨htold, hl⟩
  · rcases hlink.step hstep with hl | ⟨c, -, hc, hl⟩
    · exact .inr ⟨hkeep p htold, hl⟩
    · exact absurd htold (hmay p c hc).1

/-! ### Before the frame begins -/

/-- A call of `view` from `s` that still looks for live participants. -/
structure Looking (ps : Participants) (s : System) (view : View) (t : System) : Prop where
  phase : t.phase = .reaping view ∨ ∃ next live, t.phase = .surveying view next live
  books : t.coordinator.books = s.coordinator.books
  replies : t.replies = s.replies
  heard : Heard ps s view (fun _ => False) t
  /-- Nobody is live at a closed barrier. -/
  unclosed : ∀ next live, t.phase = .surveying view next live → live ≠ [] →
    t.pool.barrier.closed = false

/-- A call of `view` from `s` whose frame has begun and may be over; `live` are the participants that
were found live. -/
structure Serving (ps : Participants) (s : System) (view : View) (live : List Nat) (t : System) :
    Prop where
  phase : t.phase.Serves view
  frame : t.coordinator.frameIndex = s.coordinator.frameIndex + 1
  unclosed : t.pool.barrier.closed = false
  pending : ∀ p ∈ t.phase.pending, p ∈ live
  heard : Heard ps s view (fun p => p ∈ live ∧ p ∉ t.phase.pending) t
  prepared : t.phase.Prepares view →
    t.coordinator.books = s.coordinator.begun ∧ t.replies = s.replies

/-- A call that ended because nobody was live. -/
structure Refused (ps : Participants) (s : System) (view : View) (t : System) : Prop where
  phase : t.phase = .idle
  heard : Heard ps s view (fun _ => False) t

theorem looking_start (hs : Conduct ps s) (view : View) :
    Looking ps s view (s.start (.render view)) where
  phase := .inl rfl
  books := rfl
  replies := rfl
  heard := heard_start hs (start_same s _)
  unclosed next live h := by cases h

/-- A participant that is live has an open connection, so the barrier is open. -/
theorem Conduct.unclosed (ht : Conduct ps t) {p : Nat} (hp : p < t.coordinator.participantCount)
    (hc : t.coordinator.isConnected p) : t.pool.barrier.closed = false := by
  obtain ⟨a, ha⟩ := ht.seated p hp
  by_contra hclosed
  have hdown := ht.stopped p a ha (.inr (Bool.eq_true_of_not_eq_false hclosed))
  rw [ha.isConnected, hdown] at hc
  exact Bool.false_ne_true hc

theorem Turn.of_reaping (h : Turn t u) (ht : t.phase = .reaping view) :
    (u.phase = .reaping view ∨ u.phase = .surveying view 0 []) ∧ SameBooks t u := by
  cases h with
  | reap hs hu same =>
    cases ht.symm.trans hs
    exact ⟨hu, same⟩
  | wait hs | refuse hs =>
    rw [ht] at hs
    exact hs.elim
  | look hs | nobody hs | begin hs | send hs | sent hs | collect hs | gather hs | finish hs
  | crash hs | tell hs | told hs | exit hs | exited hs | close hs | closeBarrier hs | join hs
  | joined hs => cases ht.symm.trans hs

/-- What follows when the coordinator looks for live participants. -/
theorem Turn.of_surveying {next : Nat} {live : List Nat} (h : Turn t u)
    (ht : t.phase = .surveying view next live) :
    (next < t.coordinator.participantCount ∧ SameBooks t u ∧
      (u.phase = .surveying view (next + 1) live ∨ t.coordinator.isConnected next ∧
        u.phase = .surveying view (next + 1) (live ++ [next]))) ∨
    (t.coordinator.participantCount ≤ next ∧ live = [] ∧
      u.coordinator.books = t.coordinator.books ∧ Replies (.frame (.error .noParticipants)) t u) ∨
    (t.coordinator.participantCount ≤ next ∧ live ≠ [] ∧ u.phase = .sending view live ∧
      u.coordinator.books = t.coordinator.begun ∧
      u.pool.barrier.closed = t.pool.barrier.closed ∧ u.replies = t.replies) := by
  cases h with
  | look hs hlt hu same =>
    cases ht.symm.trans hs
    exact .inl ⟨hlt, same, hu⟩
  | nobody hs hle hbooks hr =>
    cases ht.symm.trans hs
    exact .inr (.inl ⟨hle, rfl, hbooks, hr⟩)
  | begin hs hle hlive hu hbooks hclosed hreplies =>
    cases ht.symm.trans hs
    exact .inr (.inr ⟨hle, hlive, hu, hbooks, hclosed, hreplies⟩)
  | wait hs | refuse hs =>
    rw [ht] at hs
    exact hs.elim
  | reap hs | send hs | sent hs | collect hs | gather hs | finish hs | crash hs | tell hs | told hs
  | exit hs | exited hs | close hs | closeBarrier hs | join hs | joined hs => cases ht.symm.trans hs

/-- A move while the coordinator looks for live participants: it goes on looking, the call ends, or
the frame begins. -/
theorem Looking.step (h : Looking ps s view t) (ht : Conduct ps t) (hstep : Step ps.behaviour t u) :
    Looking ps s view u ∨ Refused ps s view u ∨
      ∃ next live, t.phase = .surveying view next live ∧ t.coordinator.participantCount ≤ next ∧
        u.phase = .sending view live ∧ Serving ps s view live u := by
  have hne : t.phase ≠ .idle := by
    rcases h.phase with hp | ⟨next, live, hp⟩ <;> rw [hp] <;> exact Phase.noConfusion
  rcases step_inside hstep hne with ⟨hturn, hc⟩ | ⟨hph, same, hc⟩
  · have hsends : ∀ p c, ¬ t.phase.Sends p c := by
      rcases h.phase with hp | ⟨next, live, hp⟩ <;> rw [hp] <;> exact fun p c => id
    -- nothing is sent before the frame begins
    have hheard : Heard ps s view (fun _ => False) u :=
      h.heard.changes ht hc (fun p => id) fun p c hs => absurd hs (hsends p c)
    rcases h.phase with hp | ⟨next, live, hp⟩
    · obtain ⟨hu, same⟩ := hturn.of_reaping hp
      refine .inl ⟨?_, same.books.trans h.books, same.replies.trans h.replies, hheard, ?_⟩
      · exact hu.imp_right fun hu => ⟨_, _, hu⟩
      · intro next live hu' hlive
        rcases hu with hu | hu
        · cases hu.symm.trans hu'
        · cases hu.symm.trans hu'
          exact absurd rfl hlive
    · rcases hturn.of_surveying hp with ⟨hlt, same, hu⟩ | ⟨-, -, -, hr⟩ |
        ⟨hle, hlive, hu, hbooks, hclosed, hreplies⟩
      · refine .inl ⟨?_, same.books.trans h.books, same.replies.trans h.replies, hheard, ?_⟩
        · rcases hu with hu | ⟨-, hu⟩
          · exact .inr ⟨_, _, hu⟩
          · exact .inr ⟨_, _, hu⟩
        · intro next' live' hu' hlive'
          rw [same.closed]
          rcases hu with hu | ⟨hconnected, hu⟩
          · cases hu.symm.trans hu'
            exact h.unclosed _ _ hp hlive'
          · exact ht.unclosed hlt hconnected
      · exact .inr (.inl ⟨hr.phase, hheard⟩)
      · refine .inr (.inr ⟨next, live, hp, hle, hu, ?_⟩)
        -- the frame begins: its number is one more, and nobody has got its camera yet
        have hindex : t.coordinator.frameIndex = s.coordinator.frameIndex :=
          frameIndex_of_books h.books
        have hframe := congrArg Coordinator.frameIndex hbooks
        refine ⟨by rw [hu]; rfl, ?_, ?_, ?_, ?_, ?_⟩
        · rw [← hindex]
          exact hframe
        · rw [hclosed]
          exact h.unclosed _ _ hp hlive
        · rw [hu]
          exact fun p => id
        · exact fun p a ha => (hheard p a ha).imp_right fun hfalse => hfalse.1.elim
        · exact fun _ => ⟨by rw [hbooks, Coordinator.begun, h.books, hindex]; rfl, hreplies.trans h.replies⟩
  · refine .inl ⟨by rw [hph]; exact h.phase, same.books.trans h.books, same.replies.trans h.replies,
      h.heard.changes ht hc (fun p => id) fun p c hfalse => hfalse.elim, ?_⟩
    rw [hph, same.closed]
    exact h.unclosed

/-! ### During the frame -/

/-- A turn of a frame stays in the frame or ends it, and takes participants off the list of those that
are still to get the camera. -/
structure FrameTurn (view : View) (s t : System) : Prop where
  phase : t.phase.Serves view
  frame : t.coordinator.frameIndex = s.coordinator.frameIndex
  closed : t.pool.barrier.closed = s.pool.barrier.closed
  pending : ∀ p ∈ t.phase.pending, p ∈ s.phase.pending
  prepared : t.phase.Prepares view → s.phase.Prepares view ∧ SameBooks s t

/-- Once images are gathered, nobody is to get the camera any more. -/
theorem FrameTurn.of_not_prepares (hserves : t.phase.Serves view) (hleft : ¬ t.phase.Prepares view)
    (hframe : t.coordinator.frameIndex = s.coordinator.frameIndex)
    (hclosed : t.pool.barrier.closed = s.pool.barrier.closed) : FrameTurn view s t := by
  refine ⟨hserves, hframe, hclosed, ?_, fun hprep => absurd hprep hleft⟩
  intro p hp
  cases hph : t.phase with
  | sending v rest =>
    rw [hph] at hserves hleft
    exact absurd hserves hleft
  | _ =>
    rw [hph] at hp
    exact absurd hp List.not_mem_nil

theorem Turn.of_serves (h : Turn s t) (hs : s.phase.Serves view) : FrameTurn view s t := by
  cases h with
  | send hph ht same =>
    rw [hph] at hs
    obtain rfl := hs
    refine ⟨by rw [ht]; rfl, same.frameIndex, same.closed, ?_, fun _ => ⟨by rw [hph]; rfl, same⟩⟩
    rw [hph, ht]
    intro p hp
    exact List.mem_cons_of_mem _ hp
  | sent hph ht same =>
    rw [hph] at hs
    obtain rfl := hs
    refine ⟨by rw [ht]; rfl, same.frameIndex, same.closed, ?_, fun _ => ⟨by rw [hph]; rfl, same⟩⟩
    rw [ht]
    intro p hp
    exact absurd hp List.not_mem_nil
  | wait hw ht same =>
    obtain rfl := hs.eq_of_waits hw
    refine ⟨ht.prepares.serves, same.frameIndex, same.closed, ?_, fun _ => ⟨hw.prepares, same⟩⟩
    rw [ht.pending]
    intro p hp
    exact absurd hp List.not_mem_nil
  | refuse _ _ hbooks hr =>
    apply FrameTurn.of_not_prepares _ _ (frameIndex_of_books hbooks) hr.closed
    · rw [hr.phase]
      trivial
    · rw [hr.phase]
      exact id
  | collect hph ht same =>
    rw [hph] at hs
    obtain rfl := hs
    apply FrameTurn.of_not_prepares _ _ same.frameIndex same.closed
    · rw [ht]
      rfl
    · rw [ht]
      exact id
  | gather hph ht hbooks hclosed =>
    rw [hph] at hs
    obtain rfl := hs
    have hframe := congrArg Coordinator.frameIndex hbooks
    apply FrameTurn.of_not_prepares _ _ hframe hclosed
    · rw [ht]
      rfl
    · rw [ht]
      exact id
  | finish _ hf hr =>
    obtain ⟨framebuffer, hbooks⟩ := finish_eq hf
    have hframe := congrArg Coordinator.frameIndex hbooks
    apply FrameTurn.of_not_prepares _ _ hframe hr.closed
    · rw [hr.phase]
      trivial
    · rw [hr.phase]
      exact id
  | crash _ ht same =>
    apply FrameTurn.of_not_prepares _ _ same.frameIndex same.closed
    · rw [ht]
      trivial
    · rw [ht]
      exact id
  | reap hph | look hph | nobody hph | begin hph | tell hph | told hph | exit hph | exited hph
  | close hph | closeBarrier hph | join hph | joined hph =>
    rw [hph] at hs
    exact hs.elim

/-- A frame sends nothing but its camera, to the first participant that is still to get it. -/
theorem sends_of_serves {f : Phase} (hs : f.Serves view) {p : Nat} {c : Command} (hc : f.Sends p c) :
    c = .ofView view ∧ ∃ rest, f = .sending view (p :: rest) := by
  cases f with
  | sending v rest =>
    obtain rfl := hs
    cases rest with
    | nil => exact hc.elim
    | cons q rest =>
      obtain ⟨rfl, rfl⟩ := hc
      exact ⟨rfl, rest, rfl⟩
  | broadcasting d next first => exact hs.elim
  | exiting next first => exact hs.elim
  | _ => exact hc.elim

/-- A move during the frame. -/
theorem Serving.step {live : List Nat} (h : Serving ps s view live t) (ht : Conduct ps t)
    (hne : t.phase ≠ .idle) (hstep : Step ps.behaviour t u) : Serving ps s view live u := by
  rcases step_inside hstep hne with ⟨hturn, hc⟩ | ⟨hph, same, hc⟩
  · obtain ⟨hphase, hframe, hclosed, hpending, hprepared⟩ := hturn.of_serves h.phase
    refine ⟨hphase, hframe.trans h.frame, hclosed.trans h.unclosed,
      fun p hp => h.pending p (hpending p hp), ?_, ?_⟩
    · refine h.heard.changes ht hc (fun p hp => ⟨hp.1, fun hu => hp.2 (hpending p hu)⟩) ?_
      -- who gets the camera was the first of the list, and is not in the rest of it
      intro p c hsend
      obtain ⟨rfl, rest, hph⟩ := sends_of_serves h.phase hsend
      have hmem : p ∈ t.phase.pending := by
        rw [hph]
        exact List.mem_cons_self
      have hgone : p ∉ u.phase.pending := by
        have horderly := ht.orderly
        rw [hph] at horderly
        rcases hturn.pending_cases with ⟨hu, -⟩ | ⟨v, q, rest', hph', hu, -⟩ | ⟨v, next, l, hph', -⟩
        · rw [hu]
          exact List.not_mem_nil
        · obtain ⟨rfl, rfl, rfl⟩ : view = v ∧ p = q ∧ rest = rest' := by
            simpa using hph.symm.trans hph'
          rw [hu]
          exact (List.nodup_cons.1 horderly).1
        · cases hph.symm.trans hph'
      exact ⟨fun htold => htold.2 hmem, ⟨h.pending p hmem, hgone⟩, rfl⟩
    · intro hu
      obtain ⟨hprep, same⟩ := hprepared hu
      obtain ⟨hbooks, hreplies⟩ := h.prepared hprep
      exact ⟨same.books.trans hbooks, same.replies.trans hreplies⟩
  · refine ⟨by rw [hph]; exact h.phase, same.frameIndex.trans h.frame, same.closed.trans h.unclosed,
      by rw [hph]; exact h.pending, ?_, ?_⟩
    · rw [hph]
      exact h.heard.changes ht hc (fun p => id) fun p c hfalse => hfalse.elim
    · intro hu
      rw [hph] at hu
      obtain ⟨hbooks, hreplies⟩ := h.prepared hu
      exact ⟨same.books.trans hbooks, same.replies.trans hreplies⟩

/-! ### All states of a call -/

/-- A state of the call of `view` from `s`. -/
inductive Called (ps : Participants) (s : System) (view : View) (t : System) : Prop
  | looking : Looking ps s view t → Called ps s view t
  | serving {live : List Nat} : Serving ps s view live t → Called ps s view t
  | refused : Refused ps s view t → Called ps s view t

theorem called_of_within (hs : Conduct ps s) (hidle : s.phase = .idle)
    (h : Within ps.behaviour (s.start (.render view)) t) : Called ps s view t ∧ Conduct ps t := by
  induction h with
  | refl => exact ⟨.looking (looking_start hs view), hs.step (step_start hidle _)⟩
  | tail _ hne hstep ih =>
    obtain ⟨hcalled, hc⟩ := ih
    refine ⟨?_, hc.step hstep⟩
    cases hcalled with
    | looking hl =>
      rcases hl.step hc hstep with hl | hr | ⟨_, _, -, -, -, hserving⟩
      · exact .looking hl
      · exact .refused hr
      · exact .serving hserving
    | serving hserving => exact .serving (hserving.step hc hne hstep)
    | refused hr => exact absurd hr.phase hne

theorem Called.heard (h : Called ps s view t) : Heard ps s view (fun _ => True) t := by
  have hweak : ∀ {told : Nat → Prop}, Heard ps s view told t → Heard ps s view (fun _ => True) t :=
    fun hh p a ha => (hh p a ha).imp_right fun hlink => ⟨trivial, hlink.2⟩
  cases h with
  | looking hl => exact hweak hl.heard
  | serving hserving => exact hweak hserving.heard
  | refused hr => exact hweak hr.heard

end System
end SortLast
