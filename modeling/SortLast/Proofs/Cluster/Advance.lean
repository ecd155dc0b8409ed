import SortLast.Cluster.System

/-!
# Moves, one by one

What the coordinator does next depends on its phase, and in most phases on one look at the cluster. So it
is with a worker. Both kinds of moves are listed here with what was seen and with the state they lead to;
a property of all moves is proved by cases on these lists.

* `System.Acts`, `System.acts_of_advance`: the coordinator's moves inside an operation.
* `Pool.Acts`, `Pool.acts_of_step`: the steps of a worker.
-/

namespace SortLast
namespace System

/-- A move of the coordinator inside an operation. What it remembers of commands that could not be sent is
left open. -/
inductive Acts (s : System) : System → Prop
  -- who is live?
  | reap {view : View} {e : WorkerEvent} {rest : List WorkerEvent} : s.phase = .reaping view →
      s.pool.events = e :: rest → Acts s (s.takeReport e rest)
  | reaped {view : View} : s.phase = .reaping view → s.pool.events = [] →
      Acts s (s.goTo (.surveying view 0 []))
  | look {view : View} {next : Nat} {live : List Nat} : s.phase = .surveying view next live →
      next < s.coordinator.participantCount →
      Acts s (s.goTo (.surveying view (next + 1)
        (if s.coordinator.isConnected next && s.pool.isAlive next then live ++ [next] else live)))
  | nobody {view : View} {next : Nat} : s.phase = .surveying view next [] →
      s.coordinator.participantCount ≤ next → Acts s (s.answer (.frame (.error .noParticipants)))
  | begin {view : View} {next : Nat} {live : List Nat} : s.phase = .surveying view next live →
      s.coordinator.participantCount ≤ next → live ≠ [] →
      Acts s { s with
        coordinator := { s.coordinator with frameIndex := s.coordinator.frameIndex + 1 }
        phase := .sending view live }
  -- the camera, and the wait for its images
  | send {view : View} {p : Nat} {rest : List Nat} : s.phase = .sending view (p :: rest) →
      Acts s ((s.sendTo p (.ofView view)).2.goTo (.sending view rest))
  | sent {view : View} : s.phase = .sending view [] → Acts s (s.goTo (.meeting view))
  | meet {view : View} : s.phase = .meeting view → Acts s (s.arrive view [] (.awaiting view))
  | wake {view : View} {generation : Nat} {r : WaitResult} : s.phase = .awaiting view generation →
      s.pool.barrier.poll generation = some r → Acts s (s.afterWait view [] r)
  -- who missed it?
  | judge {view : View} {next : Nat} {evicted : List Nat} : s.phase = .judging view next evicted →
      next < s.coordinator.participantCount → s.pool.isAlive next →
      Acts s (s.goTo (.checking view next evicted))
  | excuse {view : View} {next : Nat} {evicted : List Nat} : s.phase = .judging view next evicted →
      next < s.coordinator.participantCount → s.pool.isAlive next = false →
      Acts s (s.goTo (.judging view (next + 1) evicted))
  | decide {view : View} {next : Nat} {evicted : List Nat} : s.phase = .judging view next evicted →
      s.coordinator.participantCount ≤ next → Acts s (s.goTo (.evicting view evicted evicted))
  | check {view : View} {next : Nat} {evicted : List Nat} : s.phase = .checking view next evicted →
      Acts s (s.goTo (.judging view (next + 1)
        (if !s.pool.slots.isFresh next s.coordinator.frameIndex then evicted ++ [next] else evicted)))
  | evict {view : View} {p : Nat} {rest evicted : List Nat} :
      s.phase = .evicting view (p :: rest) evicted →
      Acts s ((s.closeConnection p).goTo (.evicting view rest evicted))
  | evicted {view : View} {evicted : List Nat} : s.phase = .evicting view [] evicted →
      Acts s (s.goTo (.rejoining view evicted))
  | rejoin {view : View} {evicted : List Nat} : s.phase = .rejoining view evicted →
      Acts s (s.arrive view evicted (.reawaiting view evicted))
  | rewake {view : View} {evicted : List Nat} {generation : Nat} {r : WaitResult} :
      s.phase = .reawaiting view evicted generation → s.pool.barrier.poll generation = some r →
      Acts s (s.afterWait view evicted r)
  -- one image after the other, then the frame
  | collect {view : View} {evicted failed : List Nat} {e : WorkerEvent} {rest : List WorkerEvent} :
      s.phase = .collecting view evicted failed → s.pool.events = e :: rest →
      Acts s ((s.takeReport e rest).goTo (.collecting view evicted (failed ++ [e.participant])))
  | collected {view : View} {evicted failed : List Nat} : s.phase = .collecting view evicted failed →
      s.pool.events = [] →
      Acts s (s.goTo (.gathering view evicted (failed.filter fun p => !evicted.contains p)
        (s.coordinator.partition.ordered view.eye s.coordinator.compositor.order) {}))
  | gather {view : View} {evicted lost rest : List Nat} {p : Nat} {g : Gathering} :
      s.phase = .gathering view evicted lost (p :: rest) g →
      Acts s ({ s with
        coordinator :=
          (s.coordinator.gather g p (s.pool.slots.fresh p s.coordinator.frameIndex)).2 }.goTo
        (.gathering view evicted lost rest
          (s.coordinator.gather g p (s.pool.slots.fresh p s.coordinator.frameIndex)).1))
  | finish {view : View} {evicted lost : List Nat} {g : Gathering}
      {r : Except ClusterError FrameStats} {coordinator : Coordinator} :
      s.phase = .gathering view evicted lost [] g →
      s.coordinator.finish view evicted lost g = .ok (r, coordinator) →
      Acts s ({ s with coordinator }.answer (.frame r))
  | crash {view : View} {evicted lost : List Nat} {g : Gathering} {f : Fault} :
      s.phase = .gathering view evicted lost [] g →
      s.coordinator.finish view evicted lost g = .error f → Acts s (s.goTo (.crashed f))
  -- a command for everybody
  | tell {c : Command} {next : Nat} {first first' : Option ClusterError} :
      s.phase = .broadcasting c next first → next < s.coordinator.participantCount →
      s.coordinator.isConnected next → Acts s ((s.sendTo next c).2.goTo (.broadcasting c (next + 1) first'))
  | skip {c : Command} {next : Nat} {first : Option ClusterError} :
      s.phase = .broadcasting c next first → next < s.coordinator.participantCount →
      s.coordinator.isConnected next = false → Acts s (s.goTo (.broadcasting c (next + 1) first))
  | told {c : Command} {next : Nat} {first : Option ClusterError} :
      s.phase = .broadcasting c next first → s.coordinator.participantCount ≤ next →
      Acts s (s.answer (.done (outcome first)))
  -- the shutdown
  | exit {next : Nat} {first first' : Option ClusterError} {p : Proxy} : s.phase = .exiting next first →
      s.coordinator.proxies[next]? = some p →
      Acts s ((s.putProxy next p.exit.2).goTo (.exiting (next + 1) first'))
  | exited {next : Nat} {first : Option ClusterError} : s.phase = .exiting next first →
      s.coordinator.proxies[next]? = none → Acts s (s.goTo (.closing 0 first))
  | close {next : Nat} {first : Option ClusterError} : s.phase = .closing next first →
      next < s.pool.size →
      Acts s ({ s with pool := s.pool.closeInbox next }.goTo (.closing (next + 1) first))
  | closed {next : Nat} {first : Option ClusterError} : s.phase = .closing next first →
      s.pool.size ≤ next → Acts s (s.goTo (.closingBarrier first))
  | closeBarrier {first : Option ClusterError} : s.phase = .closingBarrier first →
      Acts s ({ s with pool := { s.pool with barrier := s.pool.barrier.close } }.goTo (.joining 0 first))
  | join {next : Nat} {first : Option ClusterError} {w : Worker} : s.phase = .joining next first →
      s.pool.workers[next]? = some w → w.phase = .exited → Acts s (s.goTo (.joining (next + 1) first))
  | joined {next : Nat} {first : Option ClusterError} : s.phase = .joining next first →
      s.pool.workers[next]? = none → Acts s (s.answer (.done (outcome first)))

variable {s t : System}

/-- The cases are the phases of the coordinator, and in each phase what is seen there. -/
theorem acts_of_advance (h : s.advance = some t) : Acts s t := by
  unfold advance at h
  cases hph : s.phase with
  | idle | crashed => simp [hph] at h
  | reaping view =>
    simp only [hph] at h
    split at h <;> rename_i hevents <;> cases h
    · exact .reaped hph hevents
    · exact .reap hph hevents
  | surveying view next live =>
    simp only [hph] at h
    split at h
    · rename_i hlt
      cases h
      exact .look hph hlt
    · rename_i hle
      split at h <;> rename_i hlive <;> cases h
      · rw [List.isEmpty_iff.1 hlive] at hph
        exact .nobody hph (Nat.le_of_not_lt hle)
      · exact .begin hph (Nat.le_of_not_lt hle) fun hnil => hlive (List.isEmpty_iff.2 hnil)
  | sending view rest =>
    cases rest <;> simp only [hph] at h <;> cases h
    · exact .sent hph
    · exact .send hph
  | meeting view =>
    simp only [hph] at h
    cases h
    exact .meet hph
  | awaiting view generation =>
    simp only [hph] at h
    obtain ⟨r, hr, rfl⟩ := Option.map_eq_some_iff.1 h
    exact .wake hph hr
  | judging view next evicted =>
    simp only [hph] at h
    split at h
    · rename_i hlt
      split at h <;> rename_i halive <;> cases h
      · exact .judge hph hlt halive
      · exact .excuse hph hlt (Bool.eq_false_iff.2 halive)
    · rename_i hle
      cases h
      exact .decide hph (Nat.le_of_not_lt hle)
  | checking view next evicted =>
    simp only [hph] at h
    cases h
    exact .check hph
  | evicting view rest evicted =>
    cases rest <;> simp only [hph] at h <;> cases h
    · exact .evicted hph
    · exact .evict hph
  | rejoining view evicted =>
    simp only [hph] at h
    cases h
    exact .rejoin hph
  | reawaiting view evicted generation =>
    simp only [hph] at h
    obtain ⟨r, hr, rfl⟩ := Option.map_eq_some_iff.1 h
    exact .rewake hph hr
  | collecting view evicted failed =>
    simp only [hph] at h
    split at h <;> rename_i hevents <;> cases h
    · exact .collected hph hevents
    · exact .collect hph hevents
  | gathering view evicted lost rest g =>
    cases rest <;> simp only [hph] at h
    · split at h <;> rename_i hfinish <;> cases h
      · exact .finish hph hfinish
      · exact .crash hph hfinish
    · cases h
      exact .gather hph
  | broadcasting c next first =>
    simp only [hph] at h
    split at h
    · rename_i hlt
      split at h <;> rename_i hconnected <;> cases h
      · exact .tell hph hlt hconnected
      · exact .skip hph hlt (Bool.eq_false_iff.2 hconnected)
    · rename_i hle
      cases h
      exact .told hph (Nat.le_of_not_lt hle)
  | exiting next first =>
    simp only [hph] at h
    split at h <;> rename_i hp <;> cases h
    · exact .exit hph hp
    · exact .exited hph hp
  | closing next first =>
    simp only [hph] at h
    split at h <;> rename_i hlt <;> cases h
    · exact .close hph hlt
    · exact .closed hph (Nat.le_of_not_lt hlt)
  | closingBarrier first =>
    simp only [hph] at h
    cases h
    exact .closeBarrier hph
  | joining next first =>
    simp only [hph] at h
    split at h <;> rename_i hw
    · split at h <;> rename_i hexited <;> cases h
      exact .join hph hw hexited
    · cases h
      exact .joined hph hw

end System

namespace Pool

/-- A step of worker `w` of participant `q`. -/
inductive Acts (p : Pool) (q : Nat) (w : Worker) : Pool → Prop
  | receive {image : Image} {inbox : Inbox} : w.phase = .receiving →
      w.inbox.receive? = some (.ok image, inbox) →
      Acts p q w (p.put q { w with inbox, phase := .storing image })
  | fail {e : NetError} {inbox : Inbox} : w.phase = .receiving →
      w.inbox.receive? = some (.error e, inbox) →
      Acts p q w (p.put q { w with inbox, phase := .failing e })
  | store {image : Image} : w.phase = .storing image →
      Acts p q w ({ p with slots := p.slots.store q (w.delivered + 1) image }.put q
        { w with delivered := w.delivered + 1, phase := .arriving })
  -- at the barrier
  | lead {r : WaitResult} {b : Barrier} : w.phase = .arriving →
      p.barrier.arrive = (.returns r, b) → (∀ e, r ≠ .failed e) →
      Acts p q w ({ p with barrier := b }.put q { w with phase := .receiving })
  | refuse {e : BarrierError} {b : Barrier} : w.phase = .arriving →
      p.barrier.arrive = (.returns (.failed e), b) →
      Acts p q w ({ p with barrier := b }.put q { w with phase := .stopping })
  | join {generation : Nat} {b : Barrier} : w.phase = .arriving →
      p.barrier.arrive = (.waits generation, b) →
      Acts p q w ({ p with barrier := b }.put q { w with phase := .waiting generation })
  | wake {generation : Nat} {r : WaitResult} : w.phase = .waiting generation →
      p.barrier.poll generation = some r → (∀ e, r ≠ .failed e) →
      Acts p q w (p.put q { w with phase := .receiving })
  | dismiss {generation : Nat} {e : BarrierError} : w.phase = .waiting generation →
      p.barrier.poll generation = some (.failed e) → Acts p q w (p.put q { w with phase := .stopping })
  -- on the way out
  | note {e : NetError} : w.phase = .failing e →
      Acts p q w (p.put q { w with alive := false, phase := .deciding e })
  | decide {e : NetError} : w.phase = .deciding e →
      Acts p q w (p.put q { w with phase := if p.stopping then .leaving else .announcing e })
  | announce {e : NetError} : w.phase = .announcing e →
      Acts p q w ({ p with events := p.events ++ [WorkerEvent.mk q e] }.put q { w with phase := .leaving })
  | leave : w.phase = .leaving →
      Acts p q w ({ p with barrier := p.barrier.leave }.put q { w with phase := .exited })
  | stop : w.phase = .stopping → Acts p q w (p.put q { w with alive := false, phase := .exited })

variable {p p' : Pool} {q : Nat}

/-- The cases are the phases of the worker, and in each phase what is seen there. -/
theorem acts_of_step (h : p.step q = some p') : ∃ w, p.workers[q]? = some w ∧ Acts p q w p' := by
  unfold step at h
  split at h
  · rename_i w hw
    refine ⟨w, hw, ?_⟩
    unfold stepOf at h
    cases hph : w.phase with
    | receiving =>
      simp only [hph] at h
      split at h <;> rename_i hr <;> cases h
      · exact .receive hph hr
      · exact .fail hph hr
    | arriving =>
      simp only [hph, Option.some.injEq] at h
      rcases harrive : p.barrier.arrive with ⟨(_ | _ | e) | generation, b⟩ <;>
        simp only [harrive] at h <;> subst h
      · exact .lead hph harrive nofun
      · exact .lead hph harrive nofun
      · exact .refuse hph harrive
      · exact .join hph harrive
    | waiting generation =>
      simp only [hph] at h
      split at h
      · cases h
      · rename_i e hr
        cases h
        exact .dismiss hph hr
      · rename_i r hne hr
        cases h
        exact .wake hph hr hne
    | exited => simp [hph] at h
    | storing =>
      simp only [hph] at h
      cases h
      exact .store hph
    | failing =>
      simp only [hph] at h
      cases h
      exact .note hph
    | deciding =>
      simp only [hph] at h
      cases h
      exact .decide hph
    | announcing =>
      simp only [hph] at h
      cases h
      exact .announce hph
    | leaving =>
      simp only [hph] at h
      cases h
      exact .leave hph
    | stopping =>
      simp only [hph] at h
      cases h
      exact .stop hph
  · cases h

end Pool
end SortLast
