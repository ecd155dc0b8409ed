import SortLast.Proofs.Cluster.Delivery

/-!
# The last command

Whatever a cluster is asked for and whatever fails, a participant is told to stop at most once, and
nothing is written to it after that. Telling it closes the connection, whether it gets through or not,
and over a closed connection nothing is written.

* `Proxy.Step`: what a move does to a sending end.
* `Proxy.Farewell`: the stream behind it holds an exit at most once, and nothing after it.
* `System.Winds`: the turns of a shutdown; `System.winds_of_advance`.
* `System.step_proxy`: every move changes a sending end in one of these ways.
* `System.Parting`: the invariant; `System.Parting.step`, `System.Parting.run`,
  `System.parting_of_setup`.
-/

namespace SortLast

/-! ### One sending end -/

namespace Proxy

/-- What a move of the cluster does to a sending end. An exit is not sent like other commands. -/
inductive Step (q : Proxy) : Proxy → Prop
  | stay : Step q q
  | send {c : Command} : c ≠ .exit → Step q (q.send c).2
  | exit : Step q q.exit.2
  | close : Step q q.close

variable {q r : Proxy}

/-- Over a closed connection nothing is written, and it stays closed. -/
theorem Step.silent (h : q.Step r) (hq : q.isConnected = false) :
    r.isConnected = false ∧ r.sink = q.sink := by
  cases h with
  | stay => exact ⟨hq, rfl⟩
  | send =>
    rw [send_of_closed hq]
    exact ⟨hq, rfl⟩
  | exit =>
    rw [exit_of_closed hq]
    exact ⟨rfl, rfl⟩
  | close => exact ⟨rfl, rfl⟩

/-- The stream behind a sending end holds an exit at most once. With it the connection was closed, and
nothing comes after it, not even a part of a command. -/
def Farewell (q : Proxy) : Prop :=
  ∃ cs w, q.Carries cs w ∧ (.exit ∈ cs → q.isConnected = false ∧ w = [] ∧
    ∃ before, cs = before ++ [.exit] ∧ .exit ∉ before)

theorem Farewell.close (h : q.Farewell) : q.close.Farewell := by
  obtain ⟨cs, w, hcarries, hlast⟩ := h
  exact ⟨cs, w, hcarries.close, fun he => ⟨rfl, (hlast he).2⟩⟩

theorem Farewell.step (h : q.Farewell) (hstep : q.Step r) : r.Farewell := by
  by_cases hopen : q.isConnected
  · obtain ⟨cs, w, hcarries, hlast⟩ := h
    -- over an open connection no exit has gone
    have hnone : .exit ∉ cs := fun he => by
      rw [(hlast he).1] at hopen
      cases hopen
    cases hstep with
    | stay => exact ⟨cs, w, hcarries, hlast⟩
    | @send c hc =>
      rcases hcarries.send c with ⟨v, hv⟩ | ⟨-, hv⟩
      · exact ⟨cs, v, hv, fun he => absurd he hnone⟩
      · refine ⟨cs ++ [c], [], hv, fun he => ?_⟩
        rcases List.mem_append.1 he with he | he
        · exact absurd he hnone
        · exact absurd (List.mem_singleton.1 he).symm hc
    | exit =>
      rcases hcarries.exit with ⟨v, hv⟩ | ⟨-, hv⟩
      · exact ⟨cs, v, hv, fun he => absurd he hnone⟩
      · exact ⟨cs ++ [.exit], [], hv, fun _ => ⟨q.exit_isConnected, rfl, cs, rfl, hnone⟩⟩
    | close => exact Farewell.close ⟨cs, w, hcarries, hlast⟩
  · have hclosed := Bool.eq_false_of_not_eq_true hopen
    cases hstep with
    | stay => exact h
    | send =>
      rw [send_of_closed hclosed]
      exact h
    | exit =>
      rw [exit_of_closed hclosed]
      exact h.close
    | close => exact h.close

end Proxy

/-- Where no exit is sent like other commands. -/
theorem Seat.Step.proxy {may : Command → Prop} {keeps : List UInt8 → List UInt8 → Prop} {a b : Seat}
    (h : Seat.Step may keeps a b) (hmay : ∀ c, may c → c ≠ .exit) : a.proxy.Step b.proxy := by
  cases h with
  | send hc =>
    rw [putProxy_proxy]
    exact .send (hmay _ hc)
  | exit =>
    rw [putProxy_proxy]
    exact .exit
  | close =>
    rw [putProxy_proxy]
    exact .close
  | _ => exact .stay

/-! ### The turns of a shutdown -/

namespace Phase

/-- A shutdown is under way. -/
def ShutsDown : Phase → Prop
  | exiting .. | closing .. | closingBarrier _ | joining .. => True
  | _ => False

/-- No exit goes round like other commands. -/
def Exitless : Phase → Prop
  | broadcasting c .. => c ≠ .exit
  | _ => True

variable {f : Phase}

theorem Exitless.ne_exit (h : f.Exitless) (hf : ¬ f.ShutsDown) {p : Nat} {c : Command}
    (hc : f.Sends p c) : c ≠ .exit := by
  cases f with
  | sending view rest =>
    cases rest with
    | nil => exact hc.elim
    | cons q rest =>
      obtain ⟨-, rfl⟩ := hc
      exact Command.noConfusion
  | broadcasting d next first =>
    obtain ⟨-, rfl⟩ := hc
    exact h
  | exiting next first => exact absurd trivial hf
  | _ => exact hc.elim

end Phase

namespace System

variable {s t : System} {keeps : Behaviour} {next : Nat} {first : Option ClusterError}

theorem exitless_turn (h : Turn s t) (hs : s.phase.Exitless) : t.phase.Exitless := by
  cases ht : t.phase with
  | broadcasting c next first =>
    obtain ⟨_, _, hphase⟩ := h.broadcasting ht
    rw [hphase] at hs
    exact hs
  | _ => trivial

theorem exitless_start (s : System) (op : Operation) : (s.start op).phase.Exitless := by
  cases ht : (s.start op).phase with
  | broadcasting c next first =>
    rcases start_broadcasting ht with ⟨r, rfl⟩ | ⟨width, height, rfl⟩
    · cases r <;> exact Command.noConfusion
    · exact Command.noConfusion
  | _ => trivial

/-- Only the phase of the coordinator may differ, of what belongs to it. -/
structure Undisturbed (s t : System) : Prop where
  coordinator : t.coordinator = s.coordinator
  replies : t.replies = s.replies

/-- A turn of a shutdown: everybody is told to stop, in order, whatever comes of it; then the receiving
ends are closed, then the barrier; then the coordinator waits for one worker after the other. -/
inductive Winds (s t : System) : Prop
  | exit {next : Nat} {first first' : Option ClusterError} : s.phase = .exiting next first →
      next < s.coordinator.participantCount → t.phase = .exiting (next + 1) first' →
      t.coordinator =
        { s.coordinator with proxies := s.coordinator.proxies.modify next fun q => q.exit.2 } →
      t.replies = s.replies → Winds s t
  | exited {next : Nat} {first : Option ClusterError} : s.phase = .exiting next first →
      s.coordinator.participantCount ≤ next → t.phase = .closing 0 first → Undisturbed s t → Winds s t
  | close {next : Nat} {first : Option ClusterError} : s.phase = .closing next first →
      next < s.pool.workers.length → t.phase = .closing (next + 1) first → Undisturbed s t →
      t.pool = s.pool.closeInbox next → Winds s t
  | closed {next : Nat} {first : Option ClusterError} : s.phase = .closing next first →
      s.pool.workers.length ≤ next → t.phase = .closingBarrier first → Undisturbed s t → Winds s t
  | closeBarrier {first : Option ClusterError} : s.phase = .closingBarrier first →
      t.phase = .joining 0 first → Undisturbed s t → t.pool.barrier.closed → Winds s t
  | join {next : Nat} {first : Option ClusterError} {w : Worker} : s.phase = .joining next first →
      s.pool.workers[next]? = some w → w.phase = .exited → t.phase = .joining (next + 1) first →
      Undisturbed s t → Winds s t
  | joined {next : Nat} {first : Option ClusterError} : s.phase = .joining next first →
      s.pool.workers.length ≤ next → t.phase = .idle → t.coordinator = s.coordinator →
      t.replies = s.replies ++ [.done (outcome first)] → Winds s t

theorem winds_of_advance (hs : s.phase.ShutsDown) (h : s.advance = some t) : Winds s t := by
  cases acts_of_advance h with
  | @exit next _ _ q hph hq =>
    refine .exit hph (List.getElem?_eq_some_iff.1 hq).1 rfl ?_ rfl
    show { s.coordinator with proxies := s.coordinator.proxies.set next q.exit.2 } = _
    rw [List.modify_eq_set_getElem?, hq]
    rfl
  | exited hph hnone => exact .exited hph (List.getElem?_eq_none_iff.1 hnone) rfl ⟨rfl, rfl⟩
  | close hph hlt => exact .close hph hlt rfl ⟨rfl, rfl⟩ rfl
  | closed hph hle => exact .closed hph hle rfl ⟨rfl, rfl⟩
  | closeBarrier hph => exact .closeBarrier hph rfl ⟨rfl, rfl⟩ rfl
  | join hph hw hexited => exact .join hph hw hexited rfl ⟨rfl, rfl⟩
  | joined hph hnone => exact .joined hph (List.getElem?_eq_none_iff.1 hnone) rfl rfl rfl
  -- the other phases belong to frames and to commands for everybody
  | reap hph | reaped hph | look hph | nobody hph | begin hph | send hph | sent hph | meet hph
  | wake hph | judge hph | excuse hph | decide hph | check hph | evict hph | evicted hph | rejoin hph
  | rewake hph | collect hph | collected hph | gather hph | finish hph | crash hph | tell hph | skip hph
  | told hph =>
    rw [hph] at hs
    exact hs.elim

/-- Nobody is told to stop but the participant whose turn it is. -/
theorem Winds.proxies (h : Winds s t) (p : Nat) :
    t.coordinator.proxies[p]? = s.coordinator.proxies[p]? ∨
      (∃ first, s.phase = .exiting p first) ∧
        t.coordinator.proxies[p]? = s.coordinator.proxies[p]?.map fun q => q.exit.2 := by
  cases h with
  | @exit next first _ hph _ _ hc _ =>
    rw [hc]
    by_cases hp : next = p
    · subst hp
      exact .inr ⟨⟨first, hph⟩, List.getElem?_modify_eq ..⟩
    · exact .inl (List.getElem?_modify_ne _ _ hp)
  | exited _ _ _ h | close _ _ _ h | closed _ _ _ h | closeBarrier _ _ h | join _ _ _ _ h =>
    exact .inl (by rw [h.coordinator])
  | joined _ _ _ hc => exact .inl (by rw [hc])

/-! ### Moves -/

/-- What any move does to a sending end. -/
theorem step_proxy (hs : s.Steady) (hexitless : s.phase.Exitless) (h : Step keeps s t) {p : Nat}
    {r : Proxy} (hr : t.coordinator.proxies[p]? = some r) :
    ∃ q, s.coordinator.proxies[p]? = some q ∧ q.Step r := by
  have hseats : ∀ may : Nat → Command → Prop, (∀ c, may p c → c ≠ .exit) → Changes may keeps s t →
      ∃ q, s.coordinator.proxies[p]? = some q ∧ q.Step r := by
    intro may hmay hc
    obtain ⟨b, hb⟩ := (hs.step h).seated p (List.getElem?_eq_some_iff.1 hr).1
    obtain rfl : b.proxy = r := Option.some.inj (hb.proxy.symm.trans hr)
    obtain ⟨a, ha, hstep⟩ := hc.back hs.seated hb
    exact ⟨a.proxy, ha.proxy, hstep.proxy hmay⟩
  rcases step_moves h with hm | hm | ⟨-, op, rfl⟩ | ⟨-, -, hc⟩
  · by_cases hshuts : s.phase.ShutsDown
    -- what a shutdown does is known more exactly than what it may send
    · rcases (winds_of_advance hshuts hm).proxies p with hsame | ⟨-, hexit⟩
      · exact ⟨r, hsame.symm.trans hr, .stay⟩
      · rw [hexit, Option.map_eq_some_iff] at hr
        obtain ⟨q, hq, rfl⟩ := hr
        exact ⟨q, hq, .exit⟩
    · exact hseats _ (fun c hc => hexitless.ne_exit hshuts hc) (advance_changes hm)
  · exact hseats (fun _ _ => False) (fun _ hf => hf.elim) (expire_same hm).changes
  · exact hseats (fun _ _ => False) (fun _ hf => hf.elim) (start_same s op).changes
  · exact hseats _ (fun _ hf => hf.elim) hc

/-- Nobody is told to stop twice, or anything after that. -/
structure Parting (s : System) : Prop where
  steady : s.Steady
  exitless : s.phase.Exitless
  streams : ∀ (p : Nat) (q : Proxy), s.coordinator.proxies[p]? = some q → q.Farewell

theorem Parting.step (h : s.Parting) (hstep : Step keeps s t) : t.Parting where
  steady := h.steady.step hstep
  exitless := by
    rcases step_cases hstep with ⟨hturn, -⟩ | ⟨-, -, op, rfl, -⟩ | ⟨hph, -, -⟩
    · exact exitless_turn hturn h.exitless
    · exact exitless_start s op
    · rw [hph]
      exact h.exitless
  streams p r hr := by
    obtain ⟨q, hq, hqr⟩ := step_proxy h.steady h.exitless hstep hr
    exact (h.streams p q hq).step hqr

theorem Parting.run (h : s.Parting) (hrun : Run keeps s t) : t.Parting := by
  induction hrun with
  | refl => exact h
  | tail _ hstep ih => exact ih.step hstep

/-- A setup tells nobody to stop. -/
theorem parting_of_setup {net : Network} {config : ClusterConfig} {preview : Preview} {plan : Plan}
    {connections : List Connection}
    (hfresh : ∀ p a peer, net.dial p a = .ok peer → peer.sink.accepted = [])
    (hsetup : (Setup.run net config preview).outcome = .ok (plan, connections))
    (h : System.ofPlan config plan connections = .ok s) : s.Parting where
  steady := steady_of_ofPlan h
  exitless := by
    obtain ⟨-, -, -, hphase, -⟩ := ofPlan_eq h
    rw [hphase]
    trivial
  streams p q hq := by
    obtain ⟨hproxies, -⟩ := ofPlan_eq h
    rw [hproxies, List.getElem?_map, Option.map_eq_some_iff] at hq
    obtain ⟨c, hc, rfl⟩ := hq
    obtain ⟨-, htold⟩ := Setup.told_of_run hsetup
    obtain ⟨address, c', lists, -, hopen, -, hs⟩ := htold p c hc
    refine ⟨_, _, (Connection.carries_of_open? hfresh hopen).sendAll hs, fun he => ?_⟩
    simp [Plan.commands] at he

end System
end SortLast
