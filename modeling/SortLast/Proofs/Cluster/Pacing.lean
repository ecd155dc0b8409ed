import SortLast.Proofs.Cluster.Turns

/-!
# Cameras and frames

In every state that a cluster of connected participants gets into, each seat is consistent, and nobody
has got more cameras than frames were begun. A participant that is still to get the camera of the
frame has got less. Once the barrier is closed, so is every connection.

* `Phase.owes`: how many cameras the frame still has for a participant.
* `System.Conduct`: the invariant.
* `System.Turn.owes_le`, `System.Turn.sends_le`: the turns of the coordinator keep pace.
* `System.conduct_of_connected`, `System.Conduct.step`, `System.Conduct.run`.
-/

namespace SortLast

namespace Phase

/-- The participants that are still to get the camera of the frame. -/
def pending : Phase → List Nat
  | sending _ rest => rest
  | _ => []

/-- How many cameras the frame still has for a participant. -/
def owes (f : Phase) (p : Nat) : Nat := if p ∈ f.pending then 1 else 0

/-- Nobody is found live twice, or gets the camera twice, and no camera is sent in any other way. -/
def Orderly : Phase → Prop
  | surveying _ next live => live.Nodup ∧ ∀ p ∈ live, p < next
  | sending _ rest => rest.Nodup
  | broadcasting c _ _ => c.isMatrix = false
  | _ => True

/-- A shutdown has got as far as to close the connection to this participant. -/
def Stops : Phase → Nat → Prop
  | exiting next _, p => p < next
  | closing .., _ | closingBarrier _, _ | joining .., _ => True
  | _, _ => False

variable {f : Phase} {view : View}

theorem owes_le_one (f : Phase) (p : Nat) : f.owes p ≤ 1 := by
  unfold owes
  split
  · exact Nat.le_refl 1
  · exact Nat.zero_le 1

theorem owes_of_pending_nil (h : f.pending = []) (p : Nat) : f.owes p = 0 := by
  rw [owes, h, if_neg List.not_mem_nil]

theorem Waits.pending (h : f.Waits view) : f.pending = [] := by
  cases f with
  | sending _ _ => exact h.elim
  | _ => rfl

theorem Waits.orderly (h : f.Waits view) : f.Orderly := by
  cases f with
  | surveying _ _ _ => exact h.elim
  | sending _ _ => exact h.elim
  | broadcasting _ _ _ => exact h.elim
  | _ => trivial

theorem Waits.not_stops (h : f.Waits view) (p : Nat) : ¬ f.Stops p := by
  cases f with
  | exiting _ _ => exact h.elim
  | closing _ _ => exact h.elim
  | closingBarrier _ => exact h.elim
  | joining _ _ => exact h.elim
  | _ => exact id

end Phase

namespace System

variable {s t : System} {p : Nat}

theorem SameBooks.frameIndex (h : SameBooks s t) :
    t.coordinator.frameIndex = s.coordinator.frameIndex := by
  have hbooks := congrArg Coordinator.frameIndex h.books
  exact hbooks

theorem frameIndex_of_books (h : t.coordinator.books = s.coordinator.books) :
    t.coordinator.frameIndex = s.coordinator.frameIndex := by
  have hbooks := congrArg Coordinator.frameIndex h
  exact hbooks

namespace Turn

/-- Who is still to get the camera: nobody, those after the one that just got it, or all that were
found live. -/
theorem pending_cases (h : Turn s t) :
    (t.phase.pending = [] ∧ t.coordinator.frameIndex = s.coordinator.frameIndex) ∨
      (∃ view q rest, s.phase = .sending view (q :: rest) ∧ t.phase = .sending view rest ∧
        t.coordinator.frameIndex = s.coordinator.frameIndex) ∨
      ∃ view next live, s.phase = .surveying view next live ∧ t.phase = .sending view live ∧
        t.coordinator.frameIndex = s.coordinator.frameIndex + 1 := by
  cases h with
  | reap _ ht same =>
    refine .inl ⟨?_, same.frameIndex⟩
    rcases ht with ht | ht <;> rw [ht] <;> rfl
  | look _ _ ht same =>
    refine .inl ⟨?_, same.frameIndex⟩
    rcases ht with ht | ⟨-, ht⟩ <;> rw [ht] <;> rfl
  | begin hs _ _ ht hbooks =>
    have hframe := congrArg Coordinator.frameIndex hbooks
    exact .inr (.inr ⟨_, _, _, hs, ht, hframe⟩)
  | send hs ht same => exact .inr (.inl ⟨_, _, _, hs, ht, same.frameIndex⟩)
  | wait _ ht same => exact .inl ⟨ht.pending, same.frameIndex⟩
  | gather _ ht hbooks =>
    have hframe := congrArg Coordinator.frameIndex hbooks
    exact .inl ⟨by rw [ht]; rfl, hframe⟩
  | finish _ hf hr =>
    obtain ⟨framebuffer, hbooks⟩ := finish_eq hf
    have hframe := congrArg Coordinator.frameIndex hbooks
    exact .inl ⟨by rw [hr.phase]; rfl, hframe⟩
  | nobody _ _ hbooks hr | refuse _ _ hbooks hr | told _ hbooks hr | joined _ hbooks hr =>
    exact .inl ⟨by rw [hr.phase]; rfl, frameIndex_of_books hbooks⟩
  | closeBarrier _ ht hbooks =>
    exact .inl ⟨by rw [ht]; rfl, frameIndex_of_books hbooks⟩
  | close _ ht same =>
    refine .inl ⟨?_, same.frameIndex⟩
    rcases ht with ht | ht <;> rw [ht] <;> rfl
  | sent _ ht same | collect _ ht same | crash _ ht same | tell _ ht same | join _ ht same =>
    exact .inl ⟨by rw [ht]; rfl, same.frameIndex⟩
  | exit _ ht _ same => exact .inl ⟨by rw [ht]; rfl, same.frameIndex⟩
  | exited _ _ ht same => exact .inl ⟨by rw [ht]; rfl, same.frameIndex⟩

/-- More cameras are owed only for a new frame. -/
theorem owes_le (h : Turn s t) (p : Nat) :
    t.phase.owes p + s.coordinator.frameIndex ≤ s.phase.owes p + t.coordinator.frameIndex := by
  rcases h.pending_cases with ⟨ht, hf⟩ | ⟨view, q, rest, hs, ht, hf⟩ | ⟨view, next, live, hs, ht, hf⟩
  · rw [Phase.owes_of_pending_nil ht, hf]
    omega
  · have hle : t.phase.owes p ≤ s.phase.owes p := by
      rw [hs, ht]
      unfold Phase.owes Phase.pending
      by_cases hp : p ∈ rest
      · rw [if_pos hp, if_pos (List.mem_cons_of_mem q hp)]
      · rw [if_neg hp]
        exact Nat.zero_le _
    omega
  · have hle := t.phase.owes_le_one p
    omega

/-- A camera that is sent is owed no more. -/
theorem sends_le (h : Turn s t) (ho : s.phase.Orderly) {c : Command} (hc : s.phase.Sends p c) :
    Command.matrixCount [c] + t.phase.owes p + s.coordinator.frameIndex ≤
      s.phase.owes p + t.coordinator.frameIndex := by
  have howes := h.owes_le p
  by_cases hm : c.isMatrix
  · have hone : Command.matrixCount [c] = 1 := by simp [Command.matrixCount, hm]
    -- only the head of the list gets a camera, and it is not in the rest
    obtain ⟨view, rest, hs⟩ : ∃ view rest, s.phase = .sending view (p :: rest) := by
      cases hph : s.phase with
      | sending view pending =>
        rw [hph] at hc
        cases pending with
        | nil => exact hc.elim
        | cons q rest => exact ⟨view, rest, by rw [hc.1]⟩
      | broadcasting d next first =>
        rw [hph] at hc ho
        rw [hc.2, show d.isMatrix = false from ho] at hm
        exact absurd hm Bool.false_ne_true
      | exiting next first =>
        rw [hph] at hc
        rw [hc.2] at hm
        exact absurd hm Bool.false_ne_true
      | _ =>
        rw [hph] at hc
        exact hc.elim
    have hs1 : s.phase.owes p = 1 := by
      rw [hs]
      exact if_pos List.mem_cons_self
    rw [hs] at ho
    rcases h.pending_cases with ⟨ht, hf⟩ | ⟨v, q, rest', hs', ht, hf⟩ | ⟨v, next, live, hs', -⟩
    · rw [Phase.owes_of_pending_nil ht]
      omega
    · obtain ⟨rfl, rfl, rfl⟩ : view = v ∧ p = q ∧ rest = rest' := by
        simpa using hs.symm.trans hs'
      have ht0 : t.phase.owes p = 0 := by
        rw [ht]
        exact if_neg (List.nodup_cons.1 ho).1
      omega
    · cases hs.symm.trans hs'
  · have hzero : Command.matrixCount [c] = 0 := by
      simp [Command.matrixCount, hm]
    omega

/-- Lists of participants stay without repetition. -/
theorem orderly (h : Turn s t) (ho : s.phase.Orderly) : t.phase.Orderly := by
  cases h with
  | reap _ ht =>
    rcases ht with ht | ht <;> rw [ht]
    · trivial
    · exact ⟨List.nodup_nil, fun p hp => absurd hp List.not_mem_nil⟩
  | look hs _ ht =>
    rw [hs] at ho
    obtain ⟨hnodup, hlt⟩ := ho
    rcases ht with ht | ⟨-, ht⟩ <;> rw [ht]
    · exact ⟨hnodup, fun p hp => Nat.lt_succ_of_lt (hlt p hp)⟩
    · refine ⟨List.nodup_append.2 ⟨hnodup, List.nodup_singleton _, ?_⟩, ?_⟩
      · intro a ha b hb
        have := hlt a ha
        rw [List.mem_singleton.1 hb]
        omega
      · intro a ha
        rcases List.mem_append.1 ha with ha | ha
        · exact Nat.lt_succ_of_lt (hlt a ha)
        · rw [List.mem_singleton.1 ha]
          exact Nat.lt_succ_self _
  | begin hs _ _ ht =>
    rw [hs] at ho
    rw [ht]
    exact ho.1
  | send hs ht =>
    rw [hs] at ho
    rw [ht]
    exact (List.nodup_cons.1 ho).2
  | wait _ ht => exact ht.orderly
  | tell hs ht =>
    rw [hs] at ho
    rw [ht]
    exact ho
  | nobody _ _ _ hr | refuse _ _ _ hr | finish _ _ hr | told _ _ hr | joined _ _ hr =>
    rw [hr.phase]
    trivial
  | close _ ht => rcases ht with ht | ht <;> rw [ht] <;> trivial
  | exited _ _ ht => rw [ht]; trivial
  | sent _ ht | collect _ ht | gather _ ht | crash _ ht | exit _ ht | closeBarrier _ ht | join _ ht =>
    rw [ht]
    trivial

/-- A shutdown closes connections before it goes on, and the barrier after them. -/
theorem stops (h : Turn s t) (hp : p < s.coordinator.participantCount)
    (ht : t.phase.Stops p ∨ t.pool.barrier.closed) :
    (s.phase.Stops p ∨ s.pool.barrier.closed) ∨ t.coordinator.isConnected p = false := by
  cases h with
  | reap _ hph same =>
    rw [same.closed] at ht
    rcases hph with hph | hph <;> rw [hph] at ht <;> exact .inl (.inr (ht.resolve_left id))
  | look _ _ hph same =>
    rw [same.closed] at ht
    rcases hph with hph | ⟨-, hph⟩ <;> rw [hph] at ht <;> exact .inl (.inr (ht.resolve_left id))
  | wait _ hph same =>
    rw [same.closed] at ht
    exact .inl (.inr (ht.resolve_left (hph.not_stops p)))
  | nobody _ _ _ hr | refuse _ _ _ hr | finish _ _ hr | told _ _ hr | joined _ _ hr =>
    rw [hr.closed, hr.phase] at ht
    exact .inl (.inr (ht.resolve_left id))
  | begin _ _ _ hph _ hclosed | gather _ hph _ hclosed =>
    rw [hclosed, hph] at ht
    exact .inl (.inr (ht.resolve_left id))
  | send _ hph same | sent _ hph same | collect _ hph same | crash _ hph same | tell _ hph same =>
    rw [same.closed, hph] at ht
    exact .inl (.inr (ht.resolve_left id))
  | exit hs hph hclosed same =>
    rename_i next first first'
    rw [same.closed, hph] at ht
    rcases ht with ht | ht
    -- the connection that this turn has closed, or one closed before
    · rcases Nat.lt_succ_iff_lt_or_eq.1 ht with hlt | rfl
      · rw [hs]
        exact .inl (.inl hlt)
      · exact .inr hclosed
    · exact .inl (.inr ht)
  | exited hs hle =>
    rw [hs]
    exact .inl (.inl (Nat.lt_of_lt_of_le hp hle))
  | close hs | closeBarrier hs | join hs =>
    rw [hs]
    exact .inl (.inl trivial)

end Turn

/-! ### The invariant -/

/-- What holds in every state of a cluster of connected participants. -/
structure Conduct (ps : Participants) (s : System) : Prop where
  size : s.pool.slots.size = s.coordinator.participantCount
  seated : ∀ p < s.coordinator.participantCount, ∃ a, s.Sits p a
  orderly : s.phase.Orderly
  stopped : ∀ p a, s.Sits p a → s.phase.Stops p ∨ s.pool.barrier.closed →
    a.proxy.isConnected = false
  linked : ∀ p a, s.Sits p a → ∃ cs, Seat.Link ps p a cs ∧
    Command.matrixCount cs + s.phase.owes p ≤ s.coordinator.frameIndex

variable {ps : Participants} {may : Nat → Command → Prop} {keeps : Behaviour}

theorem Sits.lt_participantCount {a : Seat} (h : s.Sits p a) : p < s.coordinator.participantCount :=
  (List.getElem?_eq_some_iff.1 h.proxy).1

/-- A seat after a change was a seat before it. -/
theorem Changes.back (hc : Changes may keeps s t)
    (hs : ∀ p < s.coordinator.participantCount, ∃ a, s.Sits p a) {b : Seat} (hb : t.Sits p b) :
    ∃ a, s.Sits p a ∧ Seat.Step (may p) (keeps p) a b := by
  have hp := hb.lt_participantCount
  rw [hc.count] at hp
  obtain ⟨a, ha⟩ := hs p hp
  obtain ⟨b', hb', hstep⟩ := hc.seat p a ha
  obtain rfl := hb'.unique hb
  exact ⟨a, ha, hstep⟩

/-- A change of the seats that keeps pace with the frames keeps the invariant. -/
theorem Conduct.changes (hs : Conduct ps s) (hc : Changes may ps.behaviour s t)
    (horderly : t.phase.Orderly)
    (hstops : ∀ p < s.coordinator.participantCount, t.phase.Stops p ∨ t.pool.barrier.closed →
      (s.phase.Stops p ∨ s.pool.barrier.closed) ∨ t.coordinator.isConnected p = false)
    (howes : ∀ p, t.phase.owes p + s.coordinator.frameIndex ≤
      s.phase.owes p + t.coordinator.frameIndex)
    (hsends : ∀ p c, may p c → Command.matrixCount [c] + t.phase.owes p + s.coordinator.frameIndex ≤
      s.phase.owes p + t.coordinator.frameIndex) : Conduct ps t where
  size := hc.size.trans (hs.size.trans hc.count.symm)
  seated := by
    intro p hp
    rw [hc.count] at hp
    obtain ⟨a, ha⟩ := hs.seated p hp
    obtain ⟨b, hb, -⟩ := hc.seat p a ha
    exact ⟨b, hb⟩
  orderly := horderly
  stopped := by
    intro p b hb ht
    obtain ⟨a, ha, hstep⟩ := hc.back hs.seated hb
    rcases hstops p ha.lt_participantCount ht with hst | hclosed
    -- a connection that is open now was open before
    · by_contra hopen
      have hconnected := hstep.isConnected (Bool.eq_true_of_not_eq_false hopen)
      rw [hs.stopped p a ha hst] at hconnected
      exact Bool.false_ne_true hconnected
    · rwa [hb.isConnected] at hclosed
  linked := by
    intro p b hb
    obtain ⟨a, ha, hstep⟩ := hc.back hs.seated hb
    obtain ⟨cs, hlink, hcount⟩ := hs.linked p a ha
    -- what is sent is either owed by the phase or no camera
    rcases hlink.step hstep with hl | ⟨c, -, hmay, hl⟩
    · have := howes p
      exact ⟨cs, hl, by omega⟩
    · have := hsends p c hmay
      refine ⟨cs ++ [c], hl, ?_⟩
      rw [Command.matrixCount_append]
      omega

theorem Begins.conduct {op : Operation} (h : Begins s t op) (hs : Conduct ps s)
    (hidle : s.phase = .idle) (hsame : SameSeats s t) : Conduct ps t := by
  have hc : Changes (fun _ _ => False) ps.behaviour s t := hsame.changes
  have hs0 : ∀ p, s.phase.owes p = 0 := by
    rw [hidle]
    exact Phase.owes_of_pending_nil rfl
  cases h with
  | render ht =>
    subst ht
    refine hs.changes hc trivial (fun p _ ht => .inl (.inr (ht.resolve_left id))) (fun p => ?_)
      fun p c hfalse => hfalse.elim
    rw [hs0 p]
    exact Nat.le_refl _
  | other hframe hclosed hph =>
    refine hs.changes hc ?_ (fun p _ ht => ?_) (fun p => ?_) fun p c hfalse => hfalse.elim
    · rcases hph with ⟨c, hm, ht⟩ | ht | ht | ⟨f, ht⟩ <;> rw [ht]
      · exact hm
      · trivial
      · trivial
      · trivial
    · rw [hclosed] at ht
      rcases hph with ⟨c, hm, hph⟩ | hph | hph | ⟨f, hph⟩ <;> rw [hph] at ht
      · exact .inl (.inr (ht.resolve_left id))
      · exact .inl (.inr (ht.resolve_left (Nat.not_lt_zero p)))
      · exact .inl (.inr (ht.resolve_left id))
      · exact .inl (.inr (ht.resolve_left id))
    · have hpending : t.phase.pending = [] := by
        rcases hph with ⟨c, hm, ht⟩ | ht | ht | ⟨f, ht⟩ <;> rw [ht] <;> rfl
      rw [Phase.owes_of_pending_nil hpending, hs0 p, hframe]

/-- Every move keeps the invariant. -/
theorem Conduct.step (hs : Conduct ps s) (h : Step ps.behaviour s t) : Conduct ps t := by
  rcases step_cases h with ⟨hturn, hc⟩ | ⟨hidle, hsame, op, -, hbegins⟩ | ⟨hph, hbooks, hc⟩
  · exact hs.changes hc (hturn.orderly hs.orderly) (fun p => hturn.stops) hturn.owes_le
      fun p c hsend => hturn.sends_le hs.orderly hsend
  · exact hbegins.conduct hs hidle hsame
  · refine hs.changes hc ?_ (fun p _ ht => ?_) (fun p => ?_) fun p c hfalse => hfalse.elim
    · rw [hph]
      exact hs.orderly
    · rw [hph, hbooks.closed] at ht
      exact .inl ht
    · rw [hph, hbooks.frameIndex]

/-- The invariant holds after every run. -/
theorem Conduct.run (hs : Conduct ps s) (h : Run ps.behaviour s t) : Conduct ps t := by
  induction h with
  | refl => exact hs
  | tail _ hstep ih => exact ih.step hstep

/-- A connection that was opened is a consistent seat. -/
theorem link_of_opened {c : Connection} (h : c.Opened p) :
    ∃ cs, Seat.Link ps p ⟨c.proxy, { inbox := c.inbox }, none, c.greeting.bytes⟩ cs ∧
      Command.matrixCount cs = 0 := by
  obtain ⟨cs, hc, hcount⟩ := h.carries
  refine ⟨cs, ⟨⟨[], hc⟩, [], List.nil_prefix, ?_, Nat.le_refl 0, rfl, fun _ => h.participant, ?_, rfl⟩,
    hcount⟩
  · rw [h.greeting]
    exact List.prefix_append _ _
  · intro _
    rw [h.greeting, h.source, List.append_nil]
    exact (List.append_nil _).symm

theorem ofPlan_eq {config : ClusterConfig} {plan : Plan} {connections : List Connection}
    (h : System.ofPlan config plan connections = .ok s) :
    s.coordinator.proxies = connections.map Connection.proxy ∧ s.coordinator.frameIndex = 0 ∧
      s.pool = .ofInboxes (connections.map Connection.inbox) ∧ s.phase = .idle ∧
      s.sent = connections.map fun c => c.greeting.bytes := by
  unfold System.ofPlan Coordinator.ofPlan at h
  cases hf : Framebuffer.allocate (α := Single) config.width config.height plan.depthImages with
  | error f =>
    rw [hf] at h
    cases h
  | ok framebuffer =>
    rw [hf] at h
    cases h
    exact ⟨rfl, rfl, rfl, rfl, rfl⟩

theorem participantCount_ofPlan {config : ClusterConfig} {plan : Plan} {connections : List Connection}
    (h : System.ofPlan config plan connections = .ok s) :
    s.coordinator.participantCount = connections.length := by
  rw [Coordinator.participantCount, (ofPlan_eq h).1, List.length_map]

/-- A cluster begins with a seat for each connection. -/
theorem sits_of_ofPlan {config : ClusterConfig} {plan : Plan} {connections : List Connection}
    (h : System.ofPlan config plan connections = .ok s) {c : Connection}
    (hp : connections[p]? = some c) :
    s.Sits p ⟨c.proxy, { inbox := c.inbox }, none, c.greeting.bytes⟩ := by
  obtain ⟨hproxies, -, hpool, -, hsent⟩ := ofPlan_eq h
  refine ⟨?_, ?_, ?_, ?_⟩
  · rw [hproxies, List.getElem?_map, hp]
    rfl
  · rw [hpool, Pool.ofInboxes, List.getElem?_map, List.getElem?_map, hp]
    rfl
  · rw [hpool, Pool.ofInboxes, Slots.ofCount, List.length_map]
    exact List.getElem?_replicate_of_lt (List.getElem?_eq_some_iff.1 hp).1
  · rw [hsent, List.getElem?_map, hp]
    rfl

/-- Every seat is the one of a connection. -/
theorem Sits.exists_connection {config : ClusterConfig} {plan : Plan} {connections : List Connection}
    {a : Seat} (ha : s.Sits p a) (h : System.ofPlan config plan connections = .ok s) :
    ∃ c, connections[p]? = some c ∧ a = ⟨c.proxy, { inbox := c.inbox }, none, c.greeting.bytes⟩ := by
  have hp := ha.lt_participantCount
  rw [participantCount_ofPlan h] at hp
  exact ⟨_, List.getElem?_eq_getElem hp, ha.unique (sits_of_ofPlan h (List.getElem?_eq_getElem hp))⟩

/-- Before any operation nobody has got a camera. -/
theorem conduct_of_connected (h : ps.Connected s) : Conduct ps s := by
  obtain ⟨net, config, preview, plan, connections, hnet, hsetup, hs⟩ := h
  have hopened := Connection.opened_of_setup hnet hsetup
  obtain ⟨-, -, hpool, hphase, -⟩ := ofPlan_eq hs
  constructor
  · rw [participantCount_ofPlan hs, hpool, Pool.ofInboxes, Slots.ofCount, Slots.size,
      List.length_replicate, List.length_map]
  · intro p hp
    rw [participantCount_ofPlan hs] at hp
    exact ⟨_, sits_of_ofPlan hs (List.getElem?_eq_getElem hp)⟩
  · rw [hphase]
    trivial
  · intro p a _ ht
    rw [hphase, hpool] at ht
    rcases ht with ht | ht
    · exact ht.elim
    · cases ht
  · intro p a ha
    obtain ⟨c, hp, rfl⟩ := ha.exists_connection hs
    obtain ⟨cs, hlink, hcs⟩ := link_of_opened (hopened p c hp)
    refine ⟨cs, hlink, ?_⟩
    rw [hcs, hphase, Phase.owes_of_pending_nil rfl]
    exact Nat.zero_le _

end System
end SortLast
