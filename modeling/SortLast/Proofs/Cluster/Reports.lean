import SortLast.Proofs.Cluster.Eviction

/-!
# Who missed a frame and who was lost

The coordinator drops a participant that misses a frame, and loses one whose worker reports a failure.
A worker reports once. So nobody is named twice, and everybody that is named has lost the connection.

* `System.reported`: the failures that were reported and count for the frame.
* `System.Tends`: what moves other than those of workers leave of workers, of reports and of the
  barrier; `System.step_tends`.
* `System.HasReported`, `System.Reports`: nobody reports twice.
* `Phase.dropped?`: the participants that are dropped, once that is decided.
* `System.Judges`: the coordinator's moves between the cameras and the images.
* `System.Naming`, `System.step_naming`: what a move means to those who are named.
* `System.Judged`: who is named, and what became of their connections.
-/

namespace SortLast

namespace Barrier

/-- An arrival that completes no generation leaves their number as it is. -/
theorem arrive_generation (b : Barrier) : b.arrive.2.generation = b.generation ∨
    b.arrive = (.returns .leader, b.arrive.2) := by
  unfold arrive
  split
  · exact .inl rfl
  · split
    · exact .inr rfl
    · exact .inl rfl

theorem expire_generation (b : Barrier) (g : Nat) : (b.expire g).2.generation = b.generation := by
  unfold expire
  split <;> rfl

end Barrier

namespace Phase

/-- The failures that were taken since the images were waited for. -/
def failed : Phase → List Nat
  | collecting _ _ failed => failed
  | _ => []

/-- The participants that are dropped for this frame, once everybody is judged. -/
def dropped? : Phase → Option (List Nat)
  | evicting _ _ evicted | rejoining _ evicted | reawaiting _ evicted _ | collecting _ evicted _
  | gathering _ evicted .. => some evicted
  | _ => none

/-- The participants that are dropped, while the coordinator is about to meet the others. -/
def met? : Phase → Option (List Nat)
  | meeting _ | awaiting .. => some []
  | rejoining _ evicted | reawaiting _ evicted _ => some evicted
  | _ => none

end Phase

namespace System

variable {s t : System} {keeps : Behaviour}

/-! ### Reports -/

/-- The failures that were reported, without those that were taken before the frame. -/
def reported (s : System) : List Nat :=
  s.phase.failed ++ s.pool.events.map WorkerEvent.participant

/-- As many generations are complete at `b` as before, or one more by the arrival of the coordinator. -/
def Counts (s : System) (b : Barrier) : Prop :=
  b.generation = s.pool.barrier.generation ∨
    s.phase.stands s.pool.barrier.generation = 0 ∧ s.pool.barrier.arrive = (.returns .leader, b)

/-- Nothing is delivered, nobody reports, and of the workers only connections change. Nobody but the
coordinator arrives at the barrier. -/
structure Tends (s t : System) : Prop where
  workers : List.Forall₂ Worker.Keeps s.pool.workers t.pool.workers
  slots : t.pool.slots = s.pool.slots
  reported : t.reported.Sublist s.reported
  counts : s.Counts t.pool.barrier

theorem tends_of_same (hw : List.Forall₂ Worker.Keeps s.pool.workers t.pool.workers)
    (hs : t.pool.slots = s.pool.slots) (he : t.pool.events = s.pool.events)
    (hf : t.phase.failed = []) (hb : s.Counts t.pool.barrier) : Tends s t := by
  refine ⟨hw, hs, ?_, hb⟩
  rw [reported, hf, he]
  exact List.sublist_append_right _ _

theorem counts_of_keeps (hk : s.pool.Keeps t.pool) : s.Counts t.pool.barrier :=
  .inl (congrArg Barrier.generation hk.barrier)

theorem tends_of_keeps (hk : s.pool.Keeps t.pool) (he : t.pool.events = s.pool.events)
    (hf : t.phase.failed = []) : Tends s t :=
  tends_of_same hk.workers hk.slots he hf (counts_of_keeps hk)

theorem putProxy_events (s : System) (q : Nat) (r : Proxy) :
    (s.putProxy q r).pool.events = s.pool.events := by
  unfold putProxy
  split <;> rfl

theorem closeConnection_events (s : System) (q : Nat) :
    (s.closeConnection q).pool.events = s.pool.events := by
  unfold closeConnection
  split
  · exact putProxy_events s q _
  · rfl

theorem takeReport_events (s : System) (e : WorkerEvent) (rest : List WorkerEvent) :
    (s.takeReport e rest).pool.events = rest := by
  unfold takeReport
  simp only
  split
  · exact closeConnection_events _ _
  · rfl

theorem sendTo_events (s : System) (q : Nat) (c : Command) :
    (s.sendTo q c).2.pool.events = s.pool.events := by
  unfold sendTo
  split
  · exact putProxy_events s q _
  · rfl

theorem afterWait_tends {b : Barrier} (s : System) (view : View) (evicted : List Nat) (r : WaitResult)
    (hb : s.Counts b) :
    Tends s (({ s with pool := { s.pool with barrier := b } } : System).afterWait view evicted r) := by
  have hworkers := (Pool.Keeps.refl s.pool).workers
  unfold afterWait
  split <;> exact tends_of_same hworkers rfl rfl rfl hb

theorem arrive_tends (s : System) (view : View) (evicted : List Nat) {wait : Nat → Phase}
    (hs : s.phase.stands s.pool.barrier.generation = 0) (hwait : ∀ g, (wait g).failed = []) :
    Tends s (s.arrive view evicted wait) := by
  have hcounts : s.Counts s.pool.barrier.arrive.2 :=
    s.pool.barrier.arrive_generation.imp_right fun hleader => ⟨hs, hleader⟩
  unfold arrive
  rcases harrive : s.pool.barrier.arrive with ⟨r | g, b⟩ <;> rw [harrive] at hcounts
  · exact afterWait_tends s view evicted r hcounts
  · exact tends_of_same (Pool.Keeps.refl s.pool).workers rfl rfl (hwait g) hcounts

theorem expire_tends (h : s.expire = some t) : Tends s t := by
  unfold expire at h
  split at h
  · cases h
    exact afterWait_tends s _ _ _ (.inl (s.pool.barrier.expire_generation _))
  · cases h

/-- Only reports are taken, before the frame and after its images were waited for. -/
theorem advance_tends (h : s.advance = some t) : Tends s t := by
  have hrefl := Pool.Keeps.refl s.pool
  cases acts_of_advance h with
  | @reap _ e rest _ hevents =>
    have hk := takeReport_keeps s e rest
    refine ⟨hk.workers, hk.slots, ?_, counts_of_keeps hk⟩
    rw [reported, reported, takeReport_events, takeReport_phase, hevents]
    exact ((List.sublist_cons_self e rest).map _).append_left _
  -- a report moves from one list to the other
  | @collect _ _ failed e rest hph hevents =>
    have hk := takeReport_keeps s e rest
    refine ⟨hk.workers, hk.slots, ?_, counts_of_keeps hk⟩
    show ((failed ++ [e.participant]) ++ (s.takeReport e rest).pool.events.map _).Sublist _
    rw [takeReport_events, reported, hph, hevents, List.append_assoc]
    exact List.Sublist.refl _
  | meet hph => exact arrive_tends s _ [] (by rw [hph]; rfl) fun _ => rfl
  | rejoin hph => exact arrive_tends s _ _ (by rw [hph]; rfl) fun _ => rfl
  | wake | rewake => exact afterWait_tends (b := s.pool.barrier) s _ _ _ (.inl rfl)
  -- connections
  | @send view q => exact tends_of_keeps (sendTo_keeps s q _) (sendTo_events s q _) rfl
  | @tell c next => exact tends_of_keeps (sendTo_keeps s next c) (sendTo_events s next c) rfl
  | @evict _ q => exact tends_of_keeps (closeConnection_keeps s q) (closeConnection_events s q) rfl
  | @exit next _ _ r =>
    exact tends_of_keeps (putProxy_keeps s next r.exit.2) (putProxy_events s next r.exit.2) rfl
  | @close next =>
    exact tends_of_keeps (s.pool.keeps_modify next s.pool.events fun _ _ => rfl) rfl rfl
  | closeBarrier => exact tends_of_same hrefl.workers rfl rfl rfl (.inl rfl)
  | _ => exact tends_of_keeps hrefl rfl rfl

theorem start_tends (s : System) (op : Operation) : Tends s (s.start op) := by
  have hworkers := (Pool.Keeps.refl s.pool).workers
  unfold start
  split
  · exact tends_of_same hworkers rfl rfl rfl (.inl rfl)
  · exact tends_of_same hworkers rfl rfl rfl (.inl rfl)
  · split
    · exact tends_of_same hworkers rfl rfl rfl (.inl rfl)
    · simp only
      split <;> exact tends_of_same hworkers rfl rfl rfl (.inl rfl)
  · exact tends_of_same hworkers rfl rfl rfl (.inl rfl)
  · split <;> exact tends_of_same hworkers rfl rfl rfl (.inl rfl)

/-- What participants do concerns connections only. -/
theorem modifyInbox_tends (q : Nat) {f : Inbox → Inbox}
    (hf : ∀ b, b.receiver.closed → (f b).receiver.closed) (sent : List (List UInt8)) :
    Tends s { s.modifyInbox q f with sent } := by
  have hk := modifyInbox_keeps s q hf
  exact ⟨hk.workers, hk.slots, List.Sublist.refl _, counts_of_keeps hk⟩

/-- One move: a worker moves, or nothing happens to workers but to their connections. -/
theorem step_tends (h : Step keeps s t) :
    Tends s t ∨ ∃ q pool, s.pool.step q = some pool ∧ t = { s with pool } := by
  obtain ⟨m, hm, -⟩ := h
  cases m with
  | ask op =>
    simp only [move] at hm
    split at hm
    · cases hm
      exact .inl (start_tends s op)
    · cases hm
  | coordinator => exact .inl (advance_tends hm)
  | timeout => exact .inl (expire_tends hm)
  | worker q =>
    obtain ⟨pool, hpool, rfl⟩ := Option.map_eq_some_iff.1 hm
    exact .inr ⟨q, pool, hpool, rfl⟩
  | deliver q bytes =>
    obtain rfl := deliver_eq hm
    exact .inl (modifyInbox_tends q (f := (·.deliver bytes)) (fun _ => id) _)
  | hangUp q failure =>
    obtain rfl := hangUp_eq hm
    exact .inl (modifyInbox_tends q (f := (·.hangUp failure)) (fun _ => id) _)

end System

/-! ### Nobody reports twice -/

/-- The worker has reported its failure, or has none to report. -/
def WorkerPhase.Reported (f : WorkerPhase) : Prop := f = .leaving ∨ f = .exited

/-- A worker reports on its way out. -/
theorem Pool.step_reports {pool pool' : Pool} {q : Nat} (h : pool.step q = some pool') :
    ∃ w w', pool.workers[q]? = some w ∧ pool'.workers = pool.workers.set q w' ∧
      (w.phase.Reported → w'.phase.Reported) ∧
      (pool'.events = pool.events ∨
        ¬ w.phase.Reported ∧ w'.phase.Reported ∧
          ∃ e, pool'.events = pool.events ++ [⟨q, e⟩]) := by
  obtain ⟨w, hw, hacts⟩ := acts_of_step h
  refine ⟨w, ?_⟩
  have hopen : ∀ {f : WorkerPhase}, w.phase = f → f ≠ .leaving → f ≠ .exited → ¬ w.phase.Reported := by
    rintro f rfl hl he (hr | hr)
    · exact hl hr
    · exact he hr
  cases hacts with
  | leave => exact ⟨_, hw, rfl, fun _ => .inr rfl, .inl rfl⟩
  | announce hph =>
    exact ⟨_, hw, rfl, fun _ => .inl rfl, .inr ⟨hopen hph nofun nofun, .inl rfl, _, rfl⟩⟩
  | receive hph | fail hph | store hph | lead hph | refuse hph | join hph | wake hph | dismiss hph
  | note hph | decide hph | stop hph =>
    exact ⟨_, hw, rfl, fun hr => absurd hr (hopen hph nofun nofun), .inl rfl⟩

namespace System

variable {s t : System} {keeps : Behaviour}

/-- The participant's worker has reported its failure, or has none to report. -/
def HasReported (s : System) (p : Nat) : Prop := ∃ w, s.pool.workers[p]? = some w ∧ w.phase.Reported

theorem HasReported.tends {p : Nat} (h : s.HasReported p) (ht : Tends s t) : t.HasReported p := by
  obtain ⟨w, hw, hr⟩ := h
  obtain ⟨hlength, hkeeps⟩ := List.forall₂_iff_get.1 ht.workers
  obtain ⟨hlt, rfl⟩ := List.getElem?_eq_some_iff.1 hw
  have hlt' : p < t.pool.workers.length := by rwa [← hlength]
  have hphase := (hkeeps p hlt hlt').phase
  rw [List.get_eq_getElem, List.get_eq_getElem] at hphase
  exact ⟨_, List.getElem?_eq_getElem hlt', hphase ▸ hr⟩

theorem HasReported.worker {p q : Nat} {pool : Pool} (h : s.HasReported p)
    (hstep : s.pool.step q = some pool) : HasReported { s with pool } p := by
  obtain ⟨w, w', hw, hworkers, hkeeps, -⟩ := Pool.step_reports hstep
  obtain ⟨v, hv, hr⟩ := h
  by_cases hpq : p = q
  · subst hpq
    obtain rfl := Option.some.inj (hv.symm.trans hw)
    refine ⟨w', ?_, hkeeps hr⟩
    show pool.workers[p]? = some w'
    rw [hworkers, List.getElem?_set_self (List.getElem?_eq_some_iff.1 hw).1]
  · refine ⟨v, ?_, hr⟩
    show pool.workers[p]? = some v
    rw [hworkers, List.getElem?_set_ne (Ne.symm hpq)]
    exact hv

theorem HasReported.step {p : Nat} (h : s.HasReported p) (hstep : Step keeps s t) : t.HasReported p := by
  rcases step_tends hstep with ht | ⟨q, pool, hpool, rfl⟩
  · exact h.tends ht
  · exact h.worker hpool

/-- At most one report is added, by a worker that had not reported. -/
theorem reported_worker {q : Nat} {pool : Pool} (hstep : s.pool.step q = some pool) :
    ({ s with pool } : System).reported = s.reported ∨
      ¬ s.HasReported q ∧ HasReported { s with pool } q ∧
        ({ s with pool } : System).reported = s.reported ++ [q] := by
  obtain ⟨w, w', hw, hworkers, -, hevents⟩ := Pool.step_reports hstep
  rcases hevents with he | ⟨hopen, hreported, e, he⟩
  · refine .inl ?_
    rw [reported, reported, he]
  · refine .inr ⟨?_, ⟨w', ?_, hreported⟩, ?_⟩
    · rintro ⟨v, hv, hr⟩
      obtain rfl := Option.some.inj (hv.symm.trans hw)
      exact hopen hr
    · show pool.workers[q]? = some w'
      rw [hworkers, List.getElem?_set_self (List.getElem?_eq_some_iff.1 hw).1]
    · rw [reported, reported, he, List.map_append, List.append_assoc]
      rfl

/-- Nobody has reported twice, and whoever has reported leaves or has left. -/
structure Reports (s : System) : Prop where
  nodup : s.reported.Nodup
  gone : ∀ p ∈ s.reported, s.HasReported p

theorem Reports.tends (h : s.Reports) (ht : Tends s t) : t.Reports where
  nodup := h.nodup.sublist ht.reported
  gone p hp := (h.gone p (ht.reported.subset hp)).tends ht

theorem Reports.worker (h : s.Reports) {q : Nat} {pool : Pool} (hstep : s.pool.step q = some pool) :
    Reports { s with pool } := by
  have hgone : ∀ p ∈ s.reported, HasReported { s with pool } p := fun p hp => (h.gone p hp).worker hstep
  rcases reported_worker hstep with hsame | ⟨hopen, hreported, hmore⟩
  · exact ⟨hsame ▸ h.nodup, hsame ▸ hgone⟩
  · constructor
    · rw [hmore]
      refine h.nodup.append (List.nodup_singleton q) fun p hp hmem => ?_
      obtain rfl := List.mem_singleton.1 hmem
      exact hopen (h.gone p hp)
    · rw [hmore]
      intro p hp
      rcases List.mem_append.1 hp with hp | hp
      · exact hgone p hp
      · obtain rfl := List.mem_singleton.1 hp
        exact hreported

theorem Reports.step (h : s.Reports) (hstep : Step keeps s t) : t.Reports := by
  rcases step_tends hstep with ht | ⟨q, pool, hpool, rfl⟩
  · exact h.tends ht
  · exact h.worker hpool

theorem reports_of_ofPlan {config : ClusterConfig} {plan : Plan} {connections : List Connection}
    (h : System.ofPlan config plan connections = .ok s) : s.Reports := by
  obtain ⟨-, -, hpool, hphase, -⟩ := ofPlan_eq h
  have hnone : s.reported = [] := by
    rw [reported, hphase, hpool]
    rfl
  constructor
  · rw [hnone]
    exact List.nodup_nil
  · rw [hnone]
    exact fun p hp => absurd hp List.not_mem_nil

/-! ### Judging -/

theorem closeConnection_isConnected (s : System) (q : Nat) :
    (s.closeConnection q).coordinator.isConnected q = false := by
  unfold closeConnection
  split
  · rename_i r hr
    have hset : (s.coordinator.proxies.set q r.close)[q]? = some r.close :=
      List.getElem?_set_self (List.getElem?_eq_some_iff.1 hr).1
    show Coordinator.isConnected { s.coordinator with proxies := _ } q = false
    rw [Coordinator.isConnected, hset]
    exact r.close_isConnected
  · rename_i hr
    rw [Coordinator.isConnected, hr]

theorem takeReport_isConnected (s : System) (e : WorkerEvent) (rest : List WorkerEvent) :
    (s.takeReport e rest).coordinator.isConnected e.participant = false := by
  unfold takeReport
  simp only
  split
  · exact closeConnection_isConnected _ _
  · rename_i hclosed
    exact Bool.eq_false_iff.2 hclosed

/-- A move of the coordinator between the cameras of a frame and its images. -/
inductive Judges (s t : System) : Prop
  | meet {view : View} {g : Nat} : s.phase = .meeting view → t.phase = .awaiting view g → Judges s t
  | complete {view : View} {evicted : List Nat} : s.phase.met? = some evicted →
      t.phase = .collecting view evicted [] → Judges s t
  | timeout {view : View} {g : Nat} : s.phase = .awaiting view g → t.phase = .judging view 0 [] →
      Judges s t
  | judge {view : View} {next : Nat} {evicted : List Nat} : s.phase = .judging view next evicted →
      next < s.coordinator.participantCount →
      s.pool.isAlive next ∧ t.phase = .checking view next evicted ∨
        t.phase = .judging view (next + 1) evicted → Judges s t
  | check {view : View} {next : Nat} {evicted : List Nat} : s.phase = .checking view next evicted →
      t.phase = .judging view (next + 1) evicted ∨
        t.phase = .judging view (next + 1) (evicted ++ [next]) → Judges s t
  | decide {view : View} {next : Nat} {evicted : List Nat} : s.phase = .judging view next evicted →
      t.phase = .evicting view evicted evicted → Judges s t
  | evict {view : View} {p : Nat} {rest evicted : List Nat} :
      s.phase = .evicting view (p :: rest) evicted → t.phase = .evicting view rest evicted →
      t.coordinator.isConnected p = false → Judges s t
  | return {view : View} {evicted : List Nat} : s.phase = .evicting view [] evicted →
      t.phase = .rejoining view evicted → Judges s t
  | rejoin {view : View} {evicted : List Nat} {g : Nat} : s.phase = .rejoining view evicted →
      t.phase = .reawaiting view evicted g → Judges s t
  | report {view : View} {evicted failed : List Nat} {p : Nat} :
      s.phase = .collecting view evicted failed → t.phase = .collecting view evicted (failed ++ [p]) →
      p ∈ s.reported → t.coordinator.isConnected p = false → Judges s t
  | collect {view : View} {evicted failed order : List Nat} : s.phase = .collecting view evicted failed →
      t.phase = .gathering view evicted (failed.filter fun p => !evicted.contains p) order {} →
      t.pool.events = [] → Judges s t

end System

/-- A wait at a barrier that ends by itself has taken no time. -/
theorem Barrier.poll_ne_timedOut (b : Barrier) (g : Nat) : b.poll g ≠ some (.failed .timedOut) := by
  unfold poll
  split
  · nofun
  · split <;> nofun

theorem Barrier.arrive_ne_timedOut (b : Barrier) : b.arrive.1 ≠ .returns (.failed .timedOut) := by
  unfold arrive
  split
  · nofun
  · split <;> nofun

namespace System

variable {s t : System} {keeps : Behaviour}

/-- The end of a wait at a barrier, other than by time. -/
theorem afterWait_judges {b : Barrier} {view : View} {evicted : List Nat} {r : WaitResult}
    (hs : s.phase.met? = some evicted) (hr : r ≠ .failed .timedOut) :
    Judges s (({ s with pool := { s.pool with barrier := b } } : System).afterWait view evicted r) ∨
      (({ s with pool := { s.pool with barrier := b } } : System).afterWait view evicted r).phase =
        .idle := by
  unfold afterWait
  split
  · exact .inl (.complete hs rfl)
  · exact .inl (.complete hs rfl)
  · exact .inr rfl
  · exact absurd rfl hr

theorem arrive_judges {view : View} {evicted : List Nat} {wait : Nat → Phase}
    (hs : s.phase.met? = some evicted)
    (hwait : ∀ g b, Judges s (({ s with pool := { s.pool with barrier := b } } : System).goTo (wait g))) :
    Judges s (s.arrive view evicted wait) ∨ (s.arrive view evicted wait).phase = .idle := by
  have hne := s.pool.barrier.arrive_ne_timedOut
  unfold arrive
  rcases ha : s.pool.barrier.arrive with ⟨r | g, b⟩
  · rw [ha] at hne
    exact afterWait_judges hs fun hr => hne (congrArg _ hr)
  · exact .inl (hwait g b)

theorem wake_judges {view : View} {evicted : List Nat} {g : Nat} {r : WaitResult}
    (hs : s.phase.met? = some evicted) (hr : s.pool.barrier.poll g = some r) :
    Judges s (s.afterWait view evicted r) ∨ (s.afterWait view evicted r).phase = .idle := by
  refine afterWait_judges (b := s.pool.barrier) hs fun he => ?_
  rw [he] at hr
  exact s.pool.barrier.poll_ne_timedOut g hr

theorem expire_judges (h : s.expire = some t) : Judges s t ∨ t.phase = .idle := by
  unfold expire at h
  split at h
  · rename_i view g hph
    cases h
    unfold afterWait
    split
    · exact .inl (.complete (by rw [hph]; rfl) rfl)
    · exact .inl (.complete (by rw [hph]; rfl) rfl)
    · exact .inr rfl
    · exact .inl (.timeout hph rfl)
  · cases h

/-- Between the cameras and the images every move of the coordinator is one of these, or ends the
call. -/
theorem advance_judges {view : View} (hs : s.phase.Waits view) (h : s.advance = some t) :
    Judges s t ∨ t.phase = .idle := by
  cases acts_of_advance h with
  | meet hph => exact arrive_judges (by rw [hph]; rfl) fun g b => .meet hph rfl
  | rejoin hph => exact arrive_judges (by rw [hph]; rfl) fun g b => .rejoin hph rfl
  | wake hph hr | rewake hph hr => exact wake_judges (by rw [hph]; rfl) hr
  | judge hph hlt halive => exact .inl (.judge hph hlt (.inl ⟨halive, rfl⟩))
  | excuse hph hlt => exact .inl (.judge hph hlt (.inr rfl))
  | decide hph => exact .inl (.decide hph rfl)
  | @check _ next _ hph =>
    refine .inl (.check hph ?_)
    by_cases hfresh : s.pool.slots.isFresh next s.coordinator.frameIndex
    · exact .inl (by simp [goTo, hfresh])
    · exact .inr (by simp [goTo, hfresh])
  | evicted hph => exact .inl (.return hph rfl)
  | @evict _ p _ _ hph => exact .inl (.evict hph rfl (closeConnection_isConnected s p))
  | collected hph hevents => exact .inl (.collect hph rfl hevents)
  | @collect _ _ _ e rest hph hevents =>
    refine .inl (.report hph rfl ?_ (takeReport_isConnected s e rest))
    rw [reported, hevents]
    exact List.mem_append_right _ List.mem_cons_self
  -- in the other phases nobody is waited for
  | reap hph | reaped hph | look hph | nobody hph | begin hph | send hph | sent hph | gather hph
  | finish hph | crash hph | tell hph | skip hph | told hph | exit hph | exited hph | close hph
  | closed hph | closeBarrier hph | join hph | joined hph =>
    rw [hph] at hs
    exact hs.elim

/-- A move inside an operation: a turn of the coordinator, of which more is known between the cameras and
the images, or a move of somebody else. -/
theorem step_judges (h : Step keeps s t) (hne : s.phase ≠ .idle) :
    (Turn s t ∧ ∀ view, s.phase.Waits view → Judges s t ∨ t.phase = .idle) ∨
      (t.phase = s.phase ∧ SameBooks s t) := by
  rcases step_moves h with ha | he | ⟨hidle, -⟩ | ⟨hph, same, -⟩
  · exact .inl ⟨advance_turn ha, fun view hw => advance_judges hw ha⟩
  · exact .inl ⟨expire_turn he, fun view _ => expire_judges he⟩
  · exact absurd hidle hne
  · exact .inr ⟨hph, same⟩

/-! ### Who is named -/

end System

/-- A phase in which nobody is judged, dropped or lost. -/
def Phase.Spares : Phase → Prop
  | judging .. | checking .. | evicting .. | rejoining .. | reawaiting .. | collecting ..
  | gathering .. => False
  | _ => True

namespace System

variable {s t : System} {keeps : Behaviour}

/-- What a move means to those who are named. -/
inductive Naming (s t : System) : Prop
  /-- The coordinator moves between the cameras and the images. -/
  | judges {view : View} : s.phase.Waits view → Judges s t → Naming s t
  | gathers {view : View} {evicted lost rest rest' : List Nat} {g g' : Gathering} :
      s.phase = .gathering view evicted lost rest g → t.phase = .gathering view evicted lost rest' g' →
      t.coordinator.frameIndex = s.coordinator.frameIndex → Naming s t
  /-- Nobody is named any more, or yet. -/
  | spares : t.phase.Spares → Naming s t
  /-- Somebody else moves. -/
  | stays : t.phase = s.phase → SameBooks s t → Naming s t

theorem Turn.naming (h : Turn s t)
    (hjudges : ∀ view, s.phase.Waits view → Judges s t ∨ t.phase = .idle) : Naming s t := by
  have hwait : ∀ view, s.phase.Waits view → Naming s t := by
    intro view hw
    rcases hjudges view hw with hj | hidle
    · exact .judges hw hj
    · exact .spares (by rw [hidle]; trivial)
  cases h with
  | wait hw => exact hwait _ hw
  | @collect view _ _ _ hph => exact hwait view (by rw [hph]; rfl)
  | gather hph hu hbooks =>
    have hframe := congrArg Coordinator.frameIndex hbooks
    exact .gathers hph hu hframe
  | reap _ hu | close _ hu => rcases hu with hu | hu <;> exact .spares (by rw [hu]; trivial)
  | look _ _ hu => rcases hu with hu | ⟨-, hu⟩ <;> exact .spares (by rw [hu]; trivial)
  | begin _ _ _ hu | exited _ _ hu | send _ hu | sent _ hu | crash _ hu | tell _ hu | exit _ hu
  | closeBarrier _ hu | join _ hu => exact .spares (by rw [hu]; trivial)
  | nobody _ _ _ hr | refuse _ _ _ hr | finish _ _ hr | told _ _ hr | joined _ _ hr =>
    exact .spares (by rw [hr.phase]; trivial)

/-- An operation that begins has named nobody. -/
theorem Begins.spares {op : Operation} (h : Begins s t op) : t.phase.Spares := by
  cases h with
  | render ht => rw [ht]; trivial
  | other _ _ hph => rcases hph with ⟨c, -, hph⟩ | hph | hph | ⟨f, hph⟩ <;> rw [hph] <;> trivial

theorem step_naming (h : Step keeps s t) : Naming s t := by
  rcases step_moves h with ha | he | ⟨-, op, rfl⟩ | ⟨hph, same, -⟩
  · exact (advance_turn ha).naming fun view hw => advance_judges hw ha
  · exact (expire_turn he).naming fun view _ => expire_judges he
  · exact .spares (start_begins s op).spares
  · exact .stays hph same

end System

namespace Phase

variable {f : Phase} {n : Nat} {shut shut' : Nat → Prop} {evicted : List Nat}

/-- Participants are judged one after the other. Those that are dropped or lost are named once, and
their connections are shut, as soon as it is their turn. -/
def Judged (n : Nat) (shut : Nat → Prop) : Phase → Prop
  | judging _ next evicted => next ≤ n ∧ evicted.Nodup ∧ ∀ p ∈ evicted, p < next
  | checking _ next evicted => next < n ∧ evicted.Nodup ∧ ∀ p ∈ evicted, p < next
  | evicting _ rest evicted =>
    evicted.Nodup ∧ (∀ p ∈ rest, p < n) ∧ ∀ p ∈ evicted, p ∈ rest ∨ shut p
  | rejoining _ evicted | reawaiting _ evicted _ => evicted.Nodup ∧ ∀ p ∈ evicted, shut p
  | collecting _ evicted failed => evicted.Nodup ∧ ∀ p ∈ evicted ++ failed, shut p
  | gathering _ evicted lost .. => (evicted ++ lost).Nodup ∧ ∀ p ∈ evicted ++ lost, shut p
  | _ => True

theorem Judged.mono (h : f.Judged n shut) (hshut : ∀ p, shut p → shut' p) : f.Judged n shut' := by
  cases f with
  | evicting => exact ⟨h.1, h.2.1, fun p hp => (h.2.2 p hp).imp_right (hshut p)⟩
  | rejoining | reawaiting | collecting | gathering => exact ⟨h.1, fun p hp => hshut p (h.2 p hp)⟩
  | _ => exact h

theorem Spares.judged (h : f.Spares) : f.Judged n shut := by
  cases f <;> first | exact h.elim | trivial

/-- Whoever is dropped when the others are met has lost the connection. -/
theorem Judged.met (h : f.Judged n shut) (hf : f.met? = some evicted) :
    evicted.Nodup ∧ ∀ p ∈ evicted, shut p := by
  cases f with
  | meeting | awaiting =>
    cases hf
    exact ⟨List.nodup_nil, nofun⟩
  | rejoining | reawaiting =>
    cases hf
    exact h
  | _ => cases hf

theorem dropped?_of_met? {l : List Nat} (hf : f.met? = some evicted) (hl : f.dropped? = some l) :
    l = evicted := by
  cases f with
  | meeting | awaiting => cases hl
  | rejoining | reawaiting =>
    cases hf
    cases hl
    rfl
  | _ => cases hf

theorem Spares.dropped? (h : f.Spares) : f.dropped? = none := by
  cases f <;> first | exact h.elim | rfl

/-- Nobody is dropped at the first meeting. -/
theorem met?_of_dropped? (hf : f.met? = some evicted) (hl : f.dropped? = none) : evicted = [] := by
  cases f with
  | meeting | awaiting =>
    cases hf
    rfl
  | rejoining | reawaiting => cases hl
  | _ => cases hf

end Phase

namespace System

variable {s t : System} {keeps : Behaviour} {evicted : List Nat}

/-- The participant has lost its connection. -/
def Shut (s : System) (p : Nat) : Prop :=
  p < s.coordinator.participantCount ∧ s.coordinator.isConnected p = false

/-- Whom the coordinator names in a frame. -/
def Judged (s : System) : Prop := s.phase.Judged s.coordinator.participantCount s.Shut

/-- A connection that is shut stays shut. -/
theorem Changes.shut {may : Nat → Command → Prop} (hc : Changes may keeps s t) (hs : s.Steady) {p : Nat}
    (hp : s.Shut p) : t.Shut p := by
  refine ⟨by rw [hc.count]; exact hp.1, Bool.eq_false_iff.2 fun ht => ?_⟩
  have hopen := hc.isConnected hs.seated hp.1 ht
  rw [hp.2] at hopen
  cases hopen

theorem Reports.lt_workers (h : s.Reports) {p : Nat} (hp : p ∈ s.reported) :
    p < s.pool.workers.length := by
  obtain ⟨w, hw, -⟩ := h.gone p hp
  exact (List.getElem?_eq_some_iff.1 hw).1

theorem Judges.judged (h : Judges s t) (hj : s.Judged) (hr : s.Reports)
    (hn : s.pool.workers.length = s.coordinator.participantCount)
    (ht : t.coordinator.participantCount = s.coordinator.participantCount)
    (hshut : ∀ p, s.Shut p → t.Shut p) : t.Judged := by
  unfold Judged at hj ⊢
  rw [ht]
  have hjudged := hj.mono hshut
  cases h with
  | meet _ hph => rw [hph]; trivial
  | complete hmet hph =>
    rw [hph]
    obtain ⟨hnodup, hclosed⟩ := hjudged.met hmet
    rw [Phase.Judged, List.append_nil]
    exact ⟨hnodup, hclosed⟩
  | timeout _ hph =>
    rw [hph]
    exact ⟨Nat.zero_le _, List.nodup_nil, nofun⟩
  | judge hs hlt hph =>
    rw [hs] at hjudged
    obtain ⟨hle, hnodup, hnext⟩ := hjudged
    rcases hph with ⟨-, hph⟩ | hph
    · rw [hph]
      exact ⟨hlt, hnodup, hnext⟩
    · rw [hph]
      exact ⟨hlt, hnodup, fun p hp => Nat.lt_succ_of_lt (hnext p hp)⟩
  | @check view next evicted hs hph =>
    rw [hs] at hjudged
    obtain ⟨hlt, hnodup, hnext⟩ := hjudged
    rcases hph with hph | hph
    · rw [hph]
      exact ⟨hlt, hnodup, fun p hp => Nat.lt_succ_of_lt (hnext p hp)⟩
    · rw [hph]
      refine ⟨hlt, hnodup.append (List.nodup_singleton next) fun p hp hmem => ?_, fun p hp => ?_⟩
      · obtain rfl := List.mem_singleton.1 hmem
        exact Nat.lt_irrefl _ (hnext p hp)
      · rcases List.mem_append.1 hp with hp | hp
        · exact Nat.lt_succ_of_lt (hnext p hp)
        · obtain rfl := List.mem_singleton.1 hp
          exact Nat.lt_succ_self p
  | decide hs hph =>
    rw [hs] at hjudged
    obtain ⟨hle, hnodup, hnext⟩ := hjudged
    rw [hph]
    exact ⟨hnodup, fun p hp => Nat.lt_of_lt_of_le (hnext p hp) hle, fun p hp => .inl hp⟩
  | @evict view q rest evicted hs hph hclosed =>
    rw [hs] at hjudged
    obtain ⟨hnodup, hrest, hshut'⟩ := hjudged
    rw [hph]
    refine ⟨hnodup, fun p hp => hrest p (List.mem_cons_of_mem q hp), fun p hp => ?_⟩
    rcases hshut' p hp with hmem | hp
    · rcases List.mem_cons.1 hmem with rfl | hmem
      · exact .inr ⟨ht ▸ hrest p List.mem_cons_self, hclosed⟩
      · exact .inl hmem
    · exact .inr hp
  | «return» hs hph =>
    rw [hs] at hjudged
    rw [hph]
    exact ⟨hjudged.1, fun p hp => (hjudged.2.2 p hp).resolve_left List.not_mem_nil⟩
  | rejoin hs hph =>
    rw [hs] at hjudged
    rw [hph]
    exact hjudged
  | @report view evicted failed q hs hph hmem hclosed =>
    rw [hs] at hjudged
    rw [hph]
    refine ⟨hjudged.1, fun p hp => ?_⟩
    rw [← List.append_assoc] at hp
    rcases List.mem_append.1 hp with hp | hp
    · exact hjudged.2 p hp
    · obtain rfl := List.mem_singleton.1 hp
      exact ⟨ht ▸ hn ▸ hr.lt_workers hmem, hclosed⟩
  -- who was dropped is not counted as lost, and nobody was lost twice
  | @collect view evicted failed order hs hph =>
    have hreported := hr.nodup
    rw [reported, hs] at hreported
    have hfailed : failed.Nodup := (List.nodup_append.1 hreported).1
    rw [hs] at hjudged
    rw [hph]
    refine ⟨hjudged.1.append (hfailed.filter _) fun p hp hlost => ?_, fun p hp => ?_⟩
    · have hnot := (List.mem_filter.1 hlost).2
      simp [hp] at hnot
    · refine hjudged.2 p ?_
      rcases List.mem_append.1 hp with hp | hp
      · exact List.mem_append_left _ hp
      · exact List.mem_append_right _ (List.mem_filter.1 hp).1

theorem Judged.step (hj : s.Judged) (hr : s.Reports) (hs : s.Steady)
    (hn : s.pool.barrier.closed = false → s.pool.workers.length = s.coordinator.participantCount)
    (hstep : Step keeps s t) : t.Judged := by
  obtain ⟨may, hc⟩ := hstep.changes
  have hshut : ∀ p, s.Shut p → t.Shut p := fun p => hc.shut hs
  cases step_naming hstep with
  | judges hw hjudges =>
    have hopen : s.pool.barrier.closed = false :=
      Bool.eq_false_iff.2 fun hclosed => hw.not_rests (hs.resting hclosed)
    exact hjudges.judged hj hr (hn hopen) hc.count hshut
  | gathers hph hu =>
    unfold Judged at hj ⊢
    rw [hph] at hj
    rw [hu]
    exact ⟨hj.1, fun p hp => hshut p (hj.2 p hp)⟩
  | spares hspares => exact hspares.judged
  | stays hph =>
    unfold Judged at hj ⊢
    rw [hph, hc.count]
    exact hj.mono hshut

/-! ### Who is dropped -/

/-- Once everybody is judged, the participants that are dropped do not change. -/
theorem Judges.dropped (h : Judges s t) (hs : s.phase.dropped? = some evicted) :
    t.phase.dropped? = some evicted := by
  cases h with
  | complete hmet hph =>
    obtain rfl := Phase.dropped?_of_met? hmet hs
    rw [hph]
    rfl
  | meet hph | timeout hph | judge hph | check hph | decide hph =>
    rw [hph] at hs
    cases hs
  | evict hph hu | «return» hph hu | rejoin hph hu | report hph hu | collect hph hu =>
    rw [hph] at hs
    rw [hu]
    exact hs

/-- Participants are dropped after everybody was judged, and else nobody is. -/
theorem Judges.dropped_back (h : Judges s t) (ht : t.phase.dropped? = some evicted) :
    s.phase.dropped? = some evicted ∨ evicted = [] ∨ ∃ view, t.phase = .evicting view evicted evicted := by
  cases h with
  | complete hmet hph =>
    rw [hph] at ht
    cases ht
    cases hs : s.phase.dropped? with
    | none => exact .inr (.inl (Phase.met?_of_dropped? hmet hs))
    | some l =>
      obtain rfl := Phase.dropped?_of_met? hmet hs
      exact .inl rfl
  | decide _ hph =>
    rw [hph] at ht
    cases ht
    exact .inr (.inr ⟨_, hph⟩)
  | judge _ _ hph =>
    rcases hph with ⟨-, hph⟩ | hph <;> rw [hph] at ht <;> cases ht
  | check _ hph =>
    rcases hph with hph | hph <;> rw [hph] at ht <;> cases ht
  | meet _ hph | timeout _ hph =>
    rw [hph] at ht
    cases ht
  | evict hs hph | «return» hs hph | rejoin hs hph | report hs hph | collect hs hph =>
    rw [hph] at ht
    rw [hs]
    exact .inl ht

end System
end SortLast
