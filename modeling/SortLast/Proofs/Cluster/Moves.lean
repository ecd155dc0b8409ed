import SortLast.Proofs.Cluster.Advance
import SortLast.Proofs.Cluster.Seat

/-!
# Moves and seats

Every move of the cluster, whoever makes it, changes every seat in one of the ways in which seats
change. Which command a seat may get is fixed by the phase that the coordinator is in.

* `System.Sits`: a participant's seat in a state.
* `Phase.Sends`: the command that the coordinator's next move sends.
* `System.Changes`: every seat changes in a proper way, and no slot comes or goes.
* `System.advance_changes`: the coordinator's move is such a change.
* `Pool.step_spec`: what one step of a worker changes in the pool.
* `System.worker_changes`, `System.deliver_changes`, `System.hangUp_changes`: moves of others.
-/

namespace SortLast

/-! ### Seats of a state -/

namespace System

/-- The seat of participant `p`. -/
structure Sits (s : System) (p : Nat) (a : Seat) : Prop where
  proxy : s.coordinator.proxies[p]? = some a.proxy
  worker : s.pool.workers[p]? = some a.worker
  slot : s.pool.slots.entries[p]? = some a.slot
  sent : s.sent[p]? = some a.sent

variable {s t u : System} {p : Nat} {a : Seat}

theorem Sits.unique {b : Seat} (ha : s.Sits p a) (hb : s.Sits p b) : a = b := by
  obtain ⟨h1, h2, h3, h4⟩ := ha
  obtain ⟨g1, g2, g3, g4⟩ := hb
  obtain ⟨_, _, _, _⟩ := a
  obtain ⟨_, _, _, _⟩ := b
  simp_all

theorem Sits.accepted (h : s.Sits p a) : s.accepted p = a.proxy.sink.accepted := by
  rw [System.accepted, h.proxy]

theorem Sits.isConnected (h : s.Sits p a) : s.coordinator.isConnected p = a.proxy.isConnected := by
  rw [Coordinator.isConnected, h.proxy]

theorem Sits.isAlive (h : s.Sits p a) : s.pool.isAlive p = a.worker.alive := by
  rw [Pool.isAlive, h.worker]

theorem Sits.get (h : s.Sits p a) : s.pool.slots.get p = a.slot := by
  rw [Slots.get, h.slot, Option.join_some]

/-- Every seat of `s` changes in a proper way; `may p` are the commands that participant `p` may be
sent. -/
structure Changes (may : Nat → Command → Prop) (keeps : Behaviour) (s t : System) : Prop where
  count : t.coordinator.participantCount = s.coordinator.participantCount
  size : t.pool.slots.size = s.pool.slots.size
  seat : ∀ p a, s.Sits p a → ∃ b, t.Sits p b ∧ Seat.Step (may p) (keeps p) a b

variable {may : Nat → Command → Prop} {keeps : Behaviour}

/-- Two states that differ at most in what belongs to no seat. -/
structure SameSeats (s t : System) : Prop where
  proxies : t.coordinator.proxies = s.coordinator.proxies
  workers : t.pool.workers = s.pool.workers
  slots : t.pool.slots = s.pool.slots
  sent : t.sent = s.sent

theorem SameSeats.sits (h : SameSeats s t) (ha : s.Sits p a) : t.Sits p a :=
  ⟨h.proxies ▸ ha.proxy, h.workers ▸ ha.worker, h.slots ▸ ha.slot, h.sent ▸ ha.sent⟩

theorem SameSeats.count (h : SameSeats s t) :
    t.coordinator.participantCount = s.coordinator.participantCount := by
  unfold Coordinator.participantCount
  rw [h.proxies]

theorem SameSeats.changes (h : SameSeats s t) : Changes may keeps s t where
  count := h.count
  size := by rw [h.slots]
  seat _ a ha := ⟨a, h.sits ha, .stay⟩

theorem SameSeats.trans_changes (h : SameSeats s t) (hc : Changes may keeps t u) :
    Changes may keeps s u where
  count := hc.count.trans h.count
  size := by rw [hc.size, h.slots]
  seat p a ha := hc.seat p a (h.sits ha)

theorem Changes.trans_same (hc : Changes may keeps s t) (h : SameSeats t u) :
    Changes may keeps s u where
  count := h.count.trans hc.count
  size := by rw [h.slots, hc.size]
  seat p a ha := by
    obtain ⟨b, hb, hstep⟩ := hc.seat p a ha
    exact ⟨b, h.sits hb, hstep⟩

/-- One seat changes. -/
theorem Changes.of_one (q : Nat)
    (hcount : t.coordinator.participantCount = s.coordinator.participantCount)
    (hsize : t.pool.slots.size = s.pool.slots.size)
    (hp : ∀ p, p ≠ q → t.coordinator.proxies[p]? = s.coordinator.proxies[p]?)
    (hw : ∀ p, p ≠ q → t.pool.workers[p]? = s.pool.workers[p]?)
    (hs : ∀ p, p ≠ q → t.pool.slots.entries[p]? = s.pool.slots.entries[p]?)
    (hsent : ∀ p, p ≠ q → t.sent[p]? = s.sent[p]?)
    (hq : ∀ a, s.Sits q a → ∃ b, t.Sits q b ∧ Seat.Step (may q) (keeps q) a b) :
    Changes may keeps s t where
  count := hcount
  size := hsize
  seat p a ha := by
    by_cases h : p = q
    · subst h
      exact hq a ha
    · exact ⟨a, ⟨(hp p h).trans ha.proxy, (hw p h).trans ha.worker, (hs p h).trans ha.slot,
        (hsent p h).trans ha.sent⟩, .stay⟩

/-! ### The coordinator's steps -/

theorem putProxy_sits {q : Nat} (h : s.Sits q a) (r : Proxy) : (s.putProxy q r).Sits q (a.putProxy r) := by
  have hq := (List.getElem?_eq_some_iff.1 h.proxy).1
  have hset : (s.coordinator.proxies.set q r)[q]? = some r := by
    rw [List.getElem?_set_self hq]
  unfold putProxy Seat.putProxy
  split
  · exact ⟨hset, h.worker, h.slot, h.sent⟩
  · refine ⟨hset, ?_, h.slot, h.sent⟩
    show (s.pool.workers.modify q _)[q]? = _
    rw [List.getElem?_modify_eq, h.worker]
    rfl

theorem putProxy_slots (q : Nat) (r : Proxy) : (s.putProxy q r).pool.slots = s.pool.slots := by
  unfold putProxy
  split <;> rfl

/-- The sending end of one connection changes. -/
theorem putProxy_changes {q : Nat} {r : Proxy}
    (h : ∀ a, s.Sits q a → Seat.Step (may q) (keeps q) a (a.putProxy r)) :
    Changes may keeps s (s.putProxy q r) := by
  refine Changes.of_one q ?_ (by rw [putProxy_slots]) ?_ ?_ ?_ (fun _ _ => rfl) ?_
  · exact List.length_set
  · intro p hp
    exact List.getElem?_set_ne (Ne.symm hp)
  · intro p hp
    unfold putProxy
    split
    · rfl
    · exact List.getElem?_modify_ne _ _ (Ne.symm hp)
  · intro p _
    rw [putProxy_slots]
  · exact fun a ha => ⟨_, putProxy_sits ha r, h a ha⟩

theorem closeConnection_changes (s : System) (q : Nat) : Changes may keeps s (s.closeConnection q) := by
  unfold closeConnection
  split
  · rename_i r hr
    refine putProxy_changes fun a ha => ?_
    obtain rfl : a.proxy = r := Option.some.inj (ha.proxy.symm.trans hr)
    exact .close
  · exact SameSeats.changes ⟨rfl, rfl, rfl, rfl⟩

theorem takeReport_changes (s : System) (e : WorkerEvent) (rest : List WorkerEvent) :
    Changes may keeps s (s.takeReport e rest) := by
  have hsame : SameSeats s { s with pool := { s.pool with events := rest } } := ⟨rfl, rfl, rfl, rfl⟩
  unfold takeReport
  simp only
  split
  · exact hsame.trans_changes (closeConnection_changes _ _)
  · exact hsame.changes

theorem sendTo_changes {q : Nat} {c : Command} (hmay : may q c) :
    Changes may keeps s (s.sendTo q c).2 := by
  unfold sendTo
  split
  · rename_i r hr
    refine putProxy_changes fun a ha => ?_
    obtain rfl : a.proxy = r := Option.some.inj (ha.proxy.symm.trans hr)
    exact .send hmay
  · exact SameSeats.changes ⟨rfl, rfl, rfl, rfl⟩

theorem closeInbox_changes (s : System) (q : Nat) :
    Changes may keeps s { s with pool := s.pool.closeInbox q } := by
  refine Changes.of_one q rfl rfl (fun _ _ => rfl) ?_ (fun _ _ => rfl) (fun _ _ => rfl) ?_
  · intro p hp
    exact List.getElem?_modify_ne _ _ (Ne.symm hp)
  · refine fun a ha => ⟨a.shut, ⟨ha.proxy, ?_, ha.slot, ha.sent⟩, .shut⟩
    show (s.pool.workers.modify q _)[q]? = _
    rw [List.getElem?_modify_eq, ha.worker]
    rfl

theorem afterWait_same (s : System) (view : View) (evicted : List Nat) (r : WaitResult) :
    SameSeats s (s.afterWait view evicted r) := by
  unfold afterWait
  split <;> exact ⟨rfl, rfl, rfl, rfl⟩

theorem arrive_same (s : System) (view : View) (evicted : List Nat) (wait : Nat → Phase) :
    SameSeats s (s.arrive view evicted wait) := by
  unfold arrive
  rcases s.pool.barrier.arrive with ⟨r | g, barrier⟩
  · obtain ⟨h1, h2, h3, h4⟩ :=
      afterWait_same { s with pool := { s.pool with barrier } } view evicted r
    exact ⟨h1, h2, h3, h4⟩
  · exact ⟨rfl, rfl, rfl, rfl⟩

theorem start_same (s : System) (op : Operation) : SameSeats s (s.start op) := by
  unfold start
  split
  · exact ⟨rfl, rfl, rfl, rfl⟩
  · exact ⟨rfl, rfl, rfl, rfl⟩
  · split
    · exact ⟨rfl, rfl, rfl, rfl⟩
    · simp only
      split <;> exact ⟨rfl, rfl, rfl, rfl⟩
  · exact ⟨rfl, rfl, rfl, rfl⟩
  · split <;> exact ⟨rfl, rfl, rfl, rfl⟩

theorem expire_same (h : s.expire = some t) : SameSeats s t := by
  unfold expire at h
  split at h
  · rename_i view generation _
    cases h
    obtain ⟨h1, h2, h3, h4⟩ := afterWait_same
      { s with pool := { s.pool with barrier := (s.pool.barrier.expire generation).2 } } view []
      (s.pool.barrier.expire generation).1
    exact ⟨h1, h2, h3, h4⟩
  · cases h

end System

/-- The command that the coordinator's next move sends, and to whom. -/
def Phase.Sends : Phase → Nat → Command → Prop
  | .sending view (q :: _), p, c => p = q ∧ c = .ofView view
  | .broadcasting d next _, p, c => p = next ∧ c = d
  | .exiting next _, p, c => p = next ∧ c = .exit
  | _, _, _ => False

namespace System

variable {s t : System} {keeps : Behaviour}

/-- Compositing a frame changes the framebuffer only. -/
theorem finish_eq {c d : Coordinator} {view : View} {evicted lost : List Nat} {g : Gathering}
    {r : Except ClusterError FrameStats} (h : c.finish view evicted lost g = .ok (r, d)) :
    ∃ framebuffer, d = { c with framebuffer } := by
  unfold Coordinator.finish at h
  split at h
  · cases h
    exact ⟨_, rfl⟩
  · cases hc : c.compositor.composite c.framebuffer c.config.background g.images with
    | error f => rw [hc] at h; cases h
    | ok framebuffer =>
      rw [hc] at h
      cases h
      exact ⟨_, rfl⟩

/-- The coordinator's move changes seats only by what its phase sends, and by closing connections. -/
theorem advance_changes (h : s.advance = some t) : Changes s.phase.Sends keeps s t := by
  cases acts_of_advance h with
  -- one seat: a command, or a connection that is closed
  | send hph | tell hph =>
    refine (sendTo_changes ?_).trans_same ⟨rfl, rfl, rfl, rfl⟩
    rw [hph]
    exact ⟨rfl, rfl⟩
  | @exit next _ _ r hph hr =>
    refine Changes.trans_same (putProxy_changes fun a ha => ?_) ⟨rfl, rfl, rfl, rfl⟩
    obtain rfl : a.proxy = r := Option.some.inj (ha.proxy.symm.trans hr)
    rw [hph]
    exact .exit ⟨rfl, rfl⟩
  | reap => exact takeReport_changes _ _ _
  | collect => exact (takeReport_changes _ _ _).trans_same ⟨rfl, rfl, rfl, rfl⟩
  | evict => exact (closeConnection_changes _ _).trans_same ⟨rfl, rfl, rfl, rfl⟩
  | close => exact (closeInbox_changes _ _).trans_same ⟨rfl, rfl, rfl, rfl⟩
  -- no seat
  | meet | rejoin => exact (arrive_same _ _ _ _).changes
  | wake | rewake => exact (afterWait_same _ _ _ _).changes
  | finish _ hfinish =>
    obtain ⟨framebuffer, rfl⟩ := finish_eq hfinish
    exact SameSeats.changes ⟨rfl, rfl, rfl, rfl⟩
  | _ => exact SameSeats.changes ⟨rfl, rfl, rfl, rfl⟩

end System

/-! ### Workers and participants -/

namespace Barrier

/-- Only closing it closes a barrier. -/
theorem arrive_closed (b : Barrier) : b.arrive.2.closed = b.closed := by
  unfold arrive
  split
  · rfl
  · split <;> rfl

theorem arrive_closed_of_eq {b c : Barrier} {a : Arrival} (h : b.arrive = (a, c)) :
    c.closed = b.closed := by
  rw [← b.arrive_closed, h]

theorem leave_closed (b : Barrier) : b.leave.closed = b.closed := by
  unfold leave
  simp only
  split <;> rfl

theorem expire_closed (b : Barrier) (g : Nat) : (b.expire g).2.closed = b.closed := by
  unfold expire
  split <;> rfl

end Barrier

/-- A step of a worker replaces the worker, fills its slot if an image is stored, and does not close
the barrier. -/
structure Pool.Stepped (q : Nat) (w w' : Worker) (stored : Option SlotEntry) (pool pool' : Pool) :
    Prop where
  workers : pool'.workers = pool.workers.set q w'
  slots : pool'.slots.entries =
    stored.elim pool.slots.entries fun e => pool.slots.entries.set q (some e)
  closed : pool'.barrier.closed = pool.barrier.closed
  step : w.Step w' stored

theorem Pool.step_spec {pool pool' : Pool} {q : Nat} (h : pool.step q = some pool') :
    ∃ w w' stored, pool.workers[q]? = some w ∧ Pool.Stepped q w w' stored pool pool' := by
  obtain ⟨w, hw, hacts⟩ := acts_of_step h
  refine ⟨w, ?_⟩
  cases hacts with
  | receive hph hr => exact ⟨_, none, hw, rfl, rfl, rfl, .receive hph hr⟩
  -- only storing fills the slot
  | store hph => exact ⟨_, some _, hw, rfl, rfl, rfl, .store hph⟩
  -- at the barrier a worker goes on, waits, or stops because it is closed
  | lead hph harrive =>
    exact ⟨_, none, hw, rfl, rfl, Barrier.arrive_closed_of_eq harrive, .meet (.inl hph) (.inl rfl)⟩
  | join hph harrive =>
    exact ⟨_, none, hw, rfl, rfl, Barrier.arrive_closed_of_eq harrive, .meet (.inl hph) (.inr ⟨_, rfl⟩)⟩
  | wake hph => exact ⟨_, none, hw, rfl, rfl, rfl, .meet (.inr ⟨_, hph⟩) (.inl rfl)⟩
  | refuse _ harrive => exact ⟨_, none, hw, rfl, rfl, Barrier.arrive_closed_of_eq harrive, .fail id rfl id⟩
  | fail | dismiss | announce => exact ⟨_, none, hw, rfl, rfl, rfl, .fail id rfl id⟩
  | decide =>
    refine ⟨_, none, hw, rfl, rfl, rfl, .fail ?_ rfl id⟩
    show ¬ WorkerPhase.Reads (if pool.stopping then _ else _)
    split <;> exact id
  | leave => exact ⟨_, none, hw, rfl, rfl, Barrier.leave_closed _, .fail id rfl id⟩
  | note | stop =>
    exact ⟨_, none, hw, rfl, rfl, rfl,
      .fail id rfl (fun ha : false = true => absurd ha Bool.false_ne_true)⟩

namespace System

variable {s t : System} {keeps : Behaviour} {may : Nat → Command → Prop}

theorem worker_changes {q : Nat} {pool : Pool} (h : s.pool.step q = some pool) :
    Changes may keeps s { s with pool } := by
  obtain ⟨w, w', stored, hw, hstep⟩ := Pool.step_spec h
  have hslots : ∀ p, p ≠ q → pool.slots.entries[p]? = s.pool.slots.entries[p]? := by
    intro p hp
    rw [hstep.slots]
    cases stored with
    | none => rfl
    | some e => exact List.getElem?_set_ne (Ne.symm hp)
  refine Changes.of_one q rfl ?_ (fun _ _ => rfl) ?_ hslots (fun _ _ => rfl) ?_
  · show pool.slots.entries.length = _
    rw [hstep.slots]
    cases stored with
    | none => rfl
    | some e => exact List.length_set
  · intro p hp
    show pool.workers[p]? = _
    rw [hstep.workers]
    exact List.getElem?_set_ne (Ne.symm hp)
  · intro a ha
    obtain rfl : a.worker = w := Option.some.inj (ha.worker.symm.trans hw)
    refine ⟨{ a with worker := w', slot := stored.or a.slot }, ⟨ha.proxy, ?_, ?_, ha.sent⟩,
      .work hstep.step⟩
    · show pool.workers[q]? = _
      rw [hstep.workers, List.getElem?_set_self (List.getElem?_eq_some_iff.1 hw).1]
    · show pool.slots.entries[q]? = _
      rw [hstep.slots]
      cases stored with
      | none => exact ha.slot
      | some e => exact List.getElem?_set_self (List.getElem?_eq_some_iff.1 ha.slot).1

theorem modifyInbox_worker {q : Nat} {a : Seat} (ha : s.Sits q a) (f : Inbox → Inbox) :
    (s.modifyInbox q f).pool.workers[q]? =
      some { a.worker with inbox := f a.worker.inbox } := by
  show (s.pool.workers.modify q _)[q]? = _
  rw [List.getElem?_modify_eq, ha.worker]
  rfl

theorem deliver_eq {q : Nat} {bytes : List UInt8} (h : s.deliver q bytes = some t) :
    t = { s.modifyInbox q (·.deliver bytes) with sent := s.sent.modify q (· ++ bytes) } := by
  unfold deliver at h
  split at h
  · split at h
    · cases h
    · cases h
      rfl
  · cases h

theorem hangUp_eq {q : Nat} {failure : Option IoError} (h : s.hangUp q failure = some t) :
    t = s.modifyInbox q (·.hangUp failure) := by
  unfold hangUp at h
  split at h
  · split at h
    · cases h
    · cases h
      rfl
  · cases h

/-- A participant sends bytes, and has kept to its behaviour after that. -/
theorem deliver_changes {q : Nat} {bytes : List UInt8} (h : s.deliver q bytes = some t)
    (hkeeps : ∀ all, t.sent[q]? = some all → keeps q (t.accepted q) all) :
    Changes may keeps s t := by
  obtain rfl := deliver_eq h
  refine Changes.of_one q rfl rfl (fun _ _ => rfl) ?_ (fun _ _ => rfl) ?_ ?_
  · intro p hp
    exact List.getElem?_modify_ne _ _ (Ne.symm hp)
  · intro p hp
    exact List.getElem?_modify_ne _ _ (Ne.symm hp)
  · intro a ha
    have hall : (s.sent.modify q (· ++ bytes))[q]? = some (a.sent ++ bytes) := by
      rw [List.getElem?_modify_eq, ha.sent]
      rfl
    have hdeliver : keeps q (s.accepted q) (a.sent ++ bytes) := hkeeps _ hall
    rw [ha.accepted] at hdeliver
    refine ⟨{ a with
      sent := a.sent ++ bytes
      worker := { a.worker with inbox := a.worker.inbox.deliver bytes } }, ?_, .deliver hdeliver⟩
    exact ⟨ha.proxy, modifyInbox_worker ha (·.deliver bytes), ha.slot, hall⟩

theorem hangUp_changes {q : Nat} {failure : Option IoError} (h : s.hangUp q failure = some t) :
    Changes may keeps s t := by
  obtain rfl := hangUp_eq h
  refine Changes.of_one q rfl rfl (fun _ _ => rfl) ?_ (fun _ _ => rfl) (fun _ _ => rfl) ?_
  · intro p hp
    exact List.getElem?_modify_ne _ _ (Ne.symm hp)
  · intro a ha
    refine ⟨{ a with worker := { a.worker with inbox := a.worker.inbox.hangUp failure } }, ?_,
      .hangUp failure⟩
    exact ⟨ha.proxy, modifyInbox_worker ha (·.hangUp failure), ha.slot, ha.sent⟩

end System
end SortLast
