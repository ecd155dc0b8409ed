import SortLast.Proofs.Cluster.Moves

/-!
# Turns of the coordinator

What a move does to where the coordinator is and to what it keeps that belongs to no participant.
Everything proved about operations is derived from this list of turns, without the definition of a
move.

* `Coordinator.books`: the coordinator's own state without its connections; `Coordinator.begun`: the
  same at the beginning of a frame.
* `Phase.Waits`: the phases of a frame between the cameras and the reports of failures.
* `System.Turn`: the coordinator's turns; `System.advance_turn`, `System.expire_turn`: its moves are
  such turns.
* `System.step_moves`, `System.step_cases`: a move is a turn of the coordinator, the beginning of an
  operation, or a move of somebody else.
-/

namespace SortLast

/-- The coordinator's state, except for its connections. -/
def Coordinator.books (c : Coordinator) : Coordinator := { c with proxies := [] }

/-- The same when one frame more has begun. -/
def Coordinator.begun (c : Coordinator) : Coordinator :=
  { c.books with frameIndex := c.frameIndex + 1 }

/-- A frame of this view is between the cameras and the reports of failures. -/
def Phase.Waits (view : View) : Phase → Prop
  | meeting v | awaiting v _ | judging v .. | checking v .. | evicting v .. | rejoining v _
  | reawaiting v .. | collecting v .. => v = view
  | _ => False

namespace System

/-- Two states that differ at most in what belongs to participants, and in the phase. -/
structure SameBooks (s t : System) : Prop where
  books : t.coordinator.books = s.coordinator.books
  closed : t.pool.barrier.closed = s.pool.barrier.closed
  replies : t.replies = s.replies

/-- An operation ends with a reply. -/
structure Replies (r : Reply) (s t : System) : Prop where
  phase : t.phase = .idle
  closed : t.pool.barrier.closed = s.pool.barrier.closed
  replies : t.replies = s.replies ++ [r]

/-- A turn of the coordinator inside an operation. -/
inductive Turn (s t : System) : Prop
  -- who is live?
  | reap {view : View} : s.phase = .reaping view → t.phase = .reaping view ∨
      t.phase = .surveying view 0 [] → SameBooks s t → Turn s t
  | look {view : View} {next : Nat} {live : List Nat} : s.phase = .surveying view next live →
      next < s.coordinator.participantCount →
      t.phase = .surveying view (next + 1) live ∨ s.coordinator.isConnected next ∧
        t.phase = .surveying view (next + 1) (live ++ [next]) → SameBooks s t → Turn s t
  | nobody {view : View} {next : Nat} : s.phase = .surveying view next [] →
      s.coordinator.participantCount ≤ next → t.coordinator.books = s.coordinator.books →
      Replies (.frame (.error .noParticipants)) s t → Turn s t
  | begin {view : View} {next : Nat} {live : List Nat} : s.phase = .surveying view next live →
      s.coordinator.participantCount ≤ next → live ≠ [] → t.phase = .sending view live →
      t.coordinator.books = s.coordinator.begun → t.pool.barrier.closed = s.pool.barrier.closed →
      t.replies = s.replies → Turn s t
  -- the camera, and the wait for its images
  | send {view : View} {p : Nat} {rest : List Nat} : s.phase = .sending view (p :: rest) →
      t.phase = .sending view rest → SameBooks s t → Turn s t
  | sent {view : View} : s.phase = .sending view [] → t.phase = .meeting view → SameBooks s t →
      Turn s t
  | wait {view : View} : s.phase.Waits view → t.phase.Waits view → SameBooks s t → Turn s t
  | refuse {view : View} : s.phase.Waits view → s.pool.barrier.closed →
      t.coordinator.books = s.coordinator.books →
      Replies (.frame (.error .noParticipants)) s t → Turn s t
  -- one image after the other, then the frame
  | collect {view : View} {evicted failed lost : List Nat} :
      s.phase = .collecting view evicted failed →
      t.phase = .gathering view evicted lost
        (s.coordinator.partition.ordered view.eye s.coordinator.compositor.order) {} →
      SameBooks s t → Turn s t
  | gather {view : View} {evicted lost rest : List Nat} {p : Nat} {g : Gathering} :
      s.phase = .gathering view evicted lost (p :: rest) g →
      t.phase = .gathering view evicted lost rest
        (s.coordinator.books.gather g p (s.pool.slots.fresh p s.coordinator.frameIndex)).1 →
      t.coordinator.books =
        (s.coordinator.books.gather g p (s.pool.slots.fresh p s.coordinator.frameIndex)).2 →
      t.pool.barrier.closed = s.pool.barrier.closed → t.replies = s.replies → Turn s t
  | finish {view : View} {evicted lost : List Nat} {g : Gathering}
      {r : Except ClusterError FrameStats} : s.phase = .gathering view evicted lost [] g →
      s.coordinator.books.finish view evicted lost g = .ok (r, t.coordinator.books) →
      Replies (.frame r) s t → Turn s t
  | crash {view : View} {evicted lost : List Nat} {g : Gathering} {f : Fault} :
      s.phase = .gathering view evicted lost [] g → t.phase = .crashed f → SameBooks s t →
      s.coordinator.books.finish view evicted lost g = .error f → Turn s t
  -- a command for everybody
  | tell {c : Command} {next : Nat} {first first' : Option ClusterError} :
      s.phase = .broadcasting c next first → t.phase = .broadcasting c (next + 1) first' →
      SameBooks s t → Turn s t
  | told {c : Command} {next : Nat} {first : Option ClusterError} :
      s.phase = .broadcasting c next first → t.coordinator.books = s.coordinator.books →
      Replies (.done (outcome first)) s t → Turn s t
  -- the shutdown
  | exit {next : Nat} {first first' : Option ClusterError} : s.phase = .exiting next first →
      t.phase = .exiting (next + 1) first' → t.coordinator.isConnected next = false →
      SameBooks s t → Turn s t
  | exited {next : Nat} {first : Option ClusterError} : s.phase = .exiting next first →
      s.coordinator.participantCount ≤ next → t.phase = .closing 0 first → SameBooks s t → Turn s t
  | close {next : Nat} {first : Option ClusterError} : s.phase = .closing next first →
      t.phase = .closing (next + 1) first ∨ t.phase = .closingBarrier first → SameBooks s t → Turn s t
  | closeBarrier {first : Option ClusterError} : s.phase = .closingBarrier first →
      t.phase = .joining 0 first → t.coordinator.books = s.coordinator.books →
      t.replies = s.replies → Turn s t
  | join {next : Nat} {first : Option ClusterError} : s.phase = .joining next first →
      t.phase = .joining (next + 1) first → SameBooks s t → Turn s t
  | joined {next : Nat} {first : Option ClusterError} : s.phase = .joining next first →
      t.coordinator.books = s.coordinator.books → Replies (.done (outcome first)) s t → Turn s t

variable {s t : System}

/-! ### What connections do not touch -/

theorem putProxy_books (s : System) (q : Nat) (r : Proxy) : SameBooks s (s.putProxy q r) := by
  refine ⟨rfl, ?_, rfl⟩
  unfold putProxy
  split <;> rfl

theorem closeConnection_books (s : System) (q : Nat) : SameBooks s (s.closeConnection q) := by
  unfold closeConnection
  split
  · exact putProxy_books s q _
  · exact ⟨rfl, rfl, rfl⟩

theorem takeReport_books (s : System) (e : WorkerEvent) (rest : List WorkerEvent) :
    SameBooks s (s.takeReport e rest) := by
  unfold takeReport
  simp only
  split
  · obtain ⟨h1, h2, h3⟩ := closeConnection_books { s with pool := { s.pool with events := rest } }
      e.participant
    exact ⟨h1, h2, h3⟩
  · exact ⟨rfl, rfl, rfl⟩

theorem sendTo_books (s : System) (q : Nat) (c : Command) : SameBooks s (s.sendTo q c).2 := by
  unfold sendTo
  split
  · exact putProxy_books s q _
  · exact ⟨rfl, rfl, rfl⟩

theorem takeReport_phase (s : System) (e : WorkerEvent) (rest : List WorkerEvent) :
    (s.takeReport e rest).phase = s.phase := by
  unfold takeReport closeConnection
  simp only
  split
  · split <;> rfl
  · rfl

/-! ### Waiting -/

end System

namespace Barrier

variable {b : Barrier} {generation : Nat}

/-- Only a closed barrier turns anybody away. -/
theorem closed_of_arrive (h : b.arrive.1 = .returns (.failed .closed)) : b.closed := by
  unfold arrive at h
  split at h
  · assumption
  · split at h <;> cases h

theorem closed_of_poll (h : b.poll generation = some (.failed .closed)) : b.closed := by
  unfold poll at h
  split at h
  · cases h
  · split at h
    · assumption
    · cases h

theorem closed_of_expire (h : (b.expire generation).1 = .failed .closed) : b.closed := by
  unfold expire at h
  cases hp : b.poll generation with
  | none =>
    rw [hp] at h
    cases h
  | some r =>
    rw [hp] at h
    exact closed_of_poll (hp.trans (congrArg some h))

end Barrier

namespace System

variable {s t : System}

/-- The end of a wait at a barrier. -/
theorem afterWait_turn {view : View} {evicted : List Nat} {r : WaitResult} {b : Barrier}
    (hs : s.phase.Waits view) (hb : b.closed = s.pool.barrier.closed)
    (hr : r = .failed .closed → s.pool.barrier.closed) :
    Turn s (({ s with pool := { s.pool with barrier := b } } : System).afterWait view evicted r) := by
  unfold afterWait
  split
  · exact .wait hs rfl ⟨rfl, hb, rfl⟩
  · exact .wait hs rfl ⟨rfl, hb, rfl⟩
  · exact .refuse hs (hr rfl) rfl ⟨rfl, hb, rfl⟩
  · exact .wait hs rfl ⟨rfl, hb, rfl⟩

theorem arrive_turn {view : View} {evicted : List Nat} {wait : Nat → Phase}
    (hs : s.phase.Waits view) (hwait : ∀ g, (wait g).Waits view) :
    Turn s (s.arrive view evicted wait) := by
  have hclosed := s.pool.barrier.arrive_closed
  have hrefused := fun h => Barrier.closed_of_arrive (b := s.pool.barrier) h
  unfold arrive
  rcases ha : s.pool.barrier.arrive with ⟨r | g, b⟩
  · rw [ha] at hclosed hrefused
    exact afterWait_turn hs hclosed fun hr => hrefused (congrArg _ hr)
  · rw [ha] at hclosed
    exact .wait hs (hwait g) ⟨rfl, hclosed, rfl⟩

theorem wake_turn {view : View} {evicted : List Nat} {generation : Nat} {r : WaitResult}
    (hs : s.phase.Waits view) (hr : s.pool.barrier.poll generation = some r) :
    Turn s (s.afterWait view evicted r) := by
  refine afterWait_turn (b := s.pool.barrier) hs rfl fun he => ?_
  rw [he] at hr
  exact Barrier.closed_of_poll hr

/-- The end of the timed wait. -/
theorem expire_turn (h : s.expire = some t) : Turn s t := by
  unfold expire at h
  split at h
  · rename_i view generation hph
    cases h
    refine afterWait_turn ?_ (Barrier.expire_closed _ _) Barrier.closed_of_expire
    rw [hph]
    rfl
  · cases h

/-! ### The coordinator's moves -/

/-- A frame is finished without the connections. -/
theorem finish_books (c : Coordinator) (view : View) (evicted lost : List Nat) (g : Gathering) :
    c.books.finish view evicted lost g =
      (c.finish view evicted lost g).map fun x => (x.1, x.2.books) := by
  unfold Coordinator.finish
  by_cases habort : c.config.policy = .abort ∧ g.missing ≠ []
  · rw [if_pos habort]
    exact if_pos habort
  · rw [if_neg habort]
    refine (if_neg habort).trans ?_
    show (do
      let framebuffer ← c.compositor.composite c.framebuffer c.config.background g.images
      _ : Except Fault _) = _
    cases c.compositor.composite c.framebuffer c.config.background g.images with
    | error f => rfl
    | ok framebuffer => rfl

/-- Every move of the coordinator is a turn. -/
theorem advance_turn (h : s.advance = some t) : Turn s t := by
  cases acts_of_advance h with
  | reap hph => exact .reap hph (.inl ((takeReport_phase _ _ _).trans hph)) (takeReport_books _ _ _)
  | reaped hph => exact .reap hph (.inr rfl) ⟨rfl, rfl, rfl⟩
  | @look _ next _ hph hlt =>
    refine .look hph hlt ?_ ⟨rfl, rfl, rfl⟩
    by_cases hc : s.coordinator.isConnected next && s.pool.isAlive next
    · exact .inr ⟨(Bool.and_eq_true_iff.1 hc).1, congrArg _ (if_pos hc)⟩
    · exact .inl (congrArg _ (if_neg hc))
  | nobody hph hle => exact .nobody hph hle rfl ⟨rfl, rfl, rfl⟩
  | begin hph hle hlive => exact .begin hph hle hlive rfl rfl rfl rfl
  | @send view p _ hph =>
    obtain ⟨h1, h2, h3⟩ := sendTo_books s p (.ofView view)
    exact .send hph rfl ⟨h1, h2, h3⟩
  | sent hph => exact .sent hph rfl ⟨rfl, rfl, rfl⟩
  -- all moves of a wait are turns of one kind
  | meet hph | rejoin hph => exact arrive_turn (by rw [hph]; rfl) fun _ => rfl
  | wake hph hr | rewake hph hr => exact wake_turn (by rw [hph]; rfl) hr
  | judge hph | excuse hph | decide hph | check hph | evicted hph =>
    exact .wait (by rw [hph]; rfl) rfl ⟨rfl, rfl, rfl⟩
  | @evict _ p _ _ hph =>
    obtain ⟨h1, h2, h3⟩ := closeConnection_books s p
    exact .wait (by rw [hph]; rfl) rfl ⟨h1, h2, h3⟩
  | @collect _ _ _ e rest hph =>
    obtain ⟨h1, h2, h3⟩ := takeReport_books s e rest
    exact .wait (by rw [hph]; rfl) rfl ⟨h1, h2, h3⟩
  | collected hph => exact .collect hph rfl ⟨rfl, rfl, rfl⟩
  | gather hph => exact .gather hph rfl rfl rfl rfl
  | finish hph hfinish => exact .finish hph (by rw [finish_books, hfinish]; rfl) ⟨rfl, rfl, rfl⟩
  | crash hph hfinish =>
    exact .crash hph rfl ⟨rfl, rfl, rfl⟩ (by rw [finish_books, hfinish]; rfl)
  | @tell c next _ _ hph =>
    obtain ⟨h1, h2, h3⟩ := sendTo_books s next c
    exact .tell hph rfl ⟨h1, h2, h3⟩
  | skip hph => exact .tell hph rfl ⟨rfl, rfl, rfl⟩
  | told hph => exact .told hph rfl ⟨rfl, rfl, rfl⟩
  | @exit next _ _ r hph hr =>
    obtain ⟨h1, h2, h3⟩ := putProxy_books s next r.exit.2
    refine .exit hph rfl ?_ ⟨h1, h2, h3⟩
    have hset : (s.coordinator.proxies.set next r.exit.2)[next]? = some r.exit.2 :=
      List.getElem?_set_self (List.getElem?_eq_some_iff.1 hr).1
    show Coordinator.isConnected { s.coordinator with proxies := _ } next = false
    rw [Coordinator.isConnected, hset]
    exact r.exit_isConnected
  | exited hph hr => exact .exited hph (List.getElem?_eq_none_iff.1 hr) rfl ⟨rfl, rfl, rfl⟩
  | close hph => exact .close hph (.inl rfl) ⟨rfl, rfl, rfl⟩
  | closed hph => exact .close hph (.inr rfl) ⟨rfl, rfl, rfl⟩
  | closeBarrier hph => exact .closeBarrier hph rfl rfl rfl
  | join hph => exact .join hph rfl ⟨rfl, rfl, rfl⟩
  | joined hph => exact .joined hph rfl ⟨rfl, rfl, rfl⟩

/-! ### What turns have in common -/

/-- A turn changes at most the number of the frame, the frame shown, and the latest images. -/
theorem Turn.books_eq (h : Turn s t) : ∃ frameIndex framebuffer lastImages,
    t.coordinator.books = { s.coordinator.books with frameIndex, framebuffer, lastImages } := by
  cases h with
  | reap _ _ same | look _ _ _ same | send _ _ same | sent _ _ same | wait _ _ same | collect _ _ same
  | crash _ _ same | tell _ _ same | exit _ _ _ same | exited _ _ _ same | close _ _ same
  | join _ _ same => exact ⟨_, _, _, same.books⟩
  | nobody _ _ hbooks | refuse _ _ hbooks | told _ hbooks | joined _ hbooks | closeBarrier _ _ hbooks
  | begin _ _ _ _ hbooks | gather _ _ hbooks => exact ⟨_, _, _, hbooks⟩
  | finish _ hf =>
    obtain ⟨framebuffer, hbooks⟩ := finish_eq hf
    exact ⟨_, _, _, hbooks⟩

/-- A command that goes round was going round before. -/
theorem Turn.broadcasting (h : Turn s t) {c : Command} {next : Nat} {first : Option ClusterError}
    (ht : t.phase = .broadcasting c next first) :
    ∃ next first, s.phase = .broadcasting c next first := by
  cases h with
  | tell hs htell =>
    cases htell.symm.trans ht
    exact ⟨_, _, hs⟩
  | wait _ hwait =>
    rw [ht] at hwait
    exact hwait.elim
  | reap _ hph | close _ hph => rcases hph with hph | hph <;> cases hph.symm.trans ht
  | look _ _ hph => rcases hph with hph | ⟨-, hph⟩ <;> cases hph.symm.trans ht
  | nobody _ _ _ hr | refuse _ _ _ hr | finish _ _ hr | told _ _ hr | joined _ _ hr =>
    cases hr.phase.symm.trans ht
  | begin _ _ _ hph | exited _ _ hph => cases hph.symm.trans ht
  | send _ hph | sent _ hph | collect _ hph | gather _ hph | crash _ hph | exit _ hph
  | closeBarrier _ hph | join _ hph => cases hph.symm.trans ht

/-! ### All moves -/

/-- An operation that begins in one of its first phases, or ends at once. -/
inductive Begins (s t : System) : Operation → Prop
  | render {view : View} : t = s.goTo (.reaping view) → Begins s t (.render view)
  | other {op : Operation} : t.coordinator.frameIndex = s.coordinator.frameIndex →
      t.pool.barrier.closed = s.pool.barrier.closed →
      (∃ c, c.isMatrix = false ∧ t.phase = .broadcasting c 0 none) ∨
        t.phase = .exiting 0 none ∨ t.phase = .idle ∨ (∃ f, t.phase = .crashed f) → Begins s t op

/-- No setting is a camera. -/
theorem setting_isMatrix (r : RenderSetting) : r.command.isMatrix = false := by
  cases r <;> rfl

theorem start_begins (s : System) (op : Operation) : Begins s (s.start op) op := by
  cases op with
  | render view => exact .render rfl
  | set r => exact .other rfl rfl (.inl ⟨_, setting_isMatrix r, rfl⟩)
  | resize width height =>
    simp only [start]
    split
    · exact .other rfl rfl (.inr (.inr (.inl rfl)))
    · split
      · exact .other rfl rfl (.inr (.inr (.inr ⟨_, rfl⟩)))
      · exact .other rfl rfl (.inl ⟨_, rfl, rfl⟩)
  | setBackground colour => exact .other rfl rfl (.inr (.inr (.inl rfl)))
  | shutdown =>
    simp only [start]
    split
    · exact .other rfl rfl (.inr (.inr (.inl rfl)))
    · exact .other rfl rfl (.inr (.inl rfl))

/-- A command goes round for a parameter or for a new size of the window. -/
theorem start_broadcasting {op : Operation} {c : Command} {next : Nat} {first : Option ClusterError}
    (h : (s.start op).phase = .broadcasting c next first) :
    (∃ r : RenderSetting, c = r.command) ∨ ∃ width height, c = .resize width height := by
  cases op with
  | render view => cases h
  | set r =>
    cases h
    exact .inl ⟨r, rfl⟩
  | resize width height =>
    simp only [start] at h
    split at h
    · cases h
    · split at h
      · cases h
      · cases h
        exact .inr ⟨_, _, rfl⟩
  | setBackground colour => cases h
  | shutdown =>
    simp only [start] at h
    split at h <;> cases h

/-- One move: the coordinator moves on, or its time runs out, or an operation begins, or somebody else
moves. -/
theorem step_moves {keeps : Behaviour} (h : Step keeps s t) :
    s.advance = some t ∨ s.expire = some t ∨ (s.phase = .idle ∧ ∃ op, t = s.start op) ∨
      (t.phase = s.phase ∧ SameBooks s t ∧ Changes (fun _ _ => False) keeps s t) := by
  obtain ⟨m, hm, hkeeps⟩ := h
  cases m with
  | ask op =>
    simp only [move] at hm
    split at hm
    · rename_i hidle
      cases hm
      exact .inr (.inr (.inl ⟨hidle, op, rfl⟩))
    · cases hm
  | coordinator => exact .inl hm
  | timeout => exact .inr (.inl hm)
  | worker q =>
    obtain ⟨pool, hpool, rfl⟩ := Option.map_eq_some_iff.1 hm
    obtain ⟨w, w', stored, -, hstep⟩ := Pool.step_spec hpool
    exact .inr (.inr (.inr ⟨rfl, ⟨rfl, hstep.closed, rfl⟩, worker_changes hpool⟩))
  | deliver q bytes =>
    refine .inr (.inr (.inr ⟨?_, ?_, deliver_changes hm (hkeeps q bytes rfl)⟩))
    · rw [deliver_eq hm]
      rfl
    · rw [deliver_eq hm]
      exact ⟨rfl, rfl, rfl⟩
  | hangUp q failure =>
    refine .inr (.inr (.inr ⟨?_, ?_, hangUp_changes hm⟩))
    · rw [hangUp_eq hm]
      rfl
    · rw [hangUp_eq hm]
      exact ⟨rfl, rfl, rfl⟩

/-- One move: a turn of the coordinator, the beginning of an operation, or a move of somebody else. -/
theorem step_cases {keeps : Behaviour} (h : Step keeps s t) :
    (Turn s t ∧ Changes s.phase.Sends keeps s t) ∨
      (s.phase = .idle ∧ SameSeats s t ∧ ∃ op, t = s.start op ∧ Begins s t op) ∨
        (t.phase = s.phase ∧ SameBooks s t ∧ Changes (fun _ _ => False) keeps s t) := by
  rcases step_moves h with hm | hm | ⟨hidle, op, rfl⟩ | haside
  · exact .inl ⟨advance_turn hm, advance_changes hm⟩
  · exact .inl ⟨expire_turn hm, (expire_same hm).changes⟩
  · exact .inr (.inl ⟨hidle, start_same s op, op, rfl, start_begins s op⟩)
  · exact .inr (.inr haside)

theorem Step.changes {keeps : Behaviour} (h : Step keeps s t) : ∃ may, Changes may keeps s t := by
  rcases step_cases h with ⟨-, hc⟩ | ⟨-, hsame, -⟩ | ⟨-, -, hc⟩
  · exact ⟨_, hc⟩
  · exact ⟨fun _ _ => False, hsame.changes⟩
  · exact ⟨_, hc⟩

end System
end SortLast
