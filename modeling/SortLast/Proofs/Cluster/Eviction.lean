import SortLast.Proofs.Cluster.Freshness
import SortLast.Proofs.Cluster.Muster
import SortLast.Proofs.Cluster.Steady

/-!
# Eviction and the second wait

After a timeout the coordinator closes the connections of the participants that have missed the frame
and then waits for the others without a time limit. Whatever participants do, it waits for nobody who is
blocked.

* `Phase.stands`, `Phase.Counted`: whether the coordinator stands at the barrier, and how many frames
  have begun.
* `Phase.Unjudged`: the participants whose workers may still block.
* `System.Attends`: the invariant; `System.Attends.step`, `System.attends_of_run`.
* `System.reawaiting_enabled`: whoever the coordinator waits for can move.
-/

namespace SortLast

namespace Phase

/-- The number of the coordinator's standing arrivals in generation `g`. -/
def stands (g : Nat) : Phase → Nat
  | awaiting _ h | reawaiting _ _ h => if h = g then 1 else 0
  | _ => 0

/-- `frame` is the number of the last frame when `g` generations are complete. -/
def Counted (frame g : Nat) : Phase → Prop
  | sending .. | meeting .. | judging .. | checking .. | evicting .. | rejoining .. => frame = g + 1
  | awaiting _ h | reawaiting _ _ h => frame = h + 1 ∧ (h = g ∨ h + 1 = g)
  | _ => frame = g

/-- A participant that the coordinator has not judged yet, or whose connection it has still to close. -/
def Unjudged : Phase → Nat → Prop
  | judging _ next evicted, p | checking _ next evicted, p => next ≤ p ∨ p ∈ evicted
  | evicting _ rest _, p => p ∈ rest
  | rejoining .., _ | reawaiting .., _ => False
  | _, _ => True

/-- The coordinator is not between the beginning of a frame and the completion of its generation. -/
def Away : Phase → Prop
  | sending .. | meeting .. | awaiting .. | judging .. | checking .. | evicting .. | rejoining ..
  | reawaiting .. => False
  | _ => True

variable {f : Phase} {frame g : Nat}

theorem Away.stands (h : f.Away) (g : Nat) : f.stands g = 0 := by
  cases f <;> first | exact h.elim | rfl

theorem Away.counted (h : f.Away) : f.Counted frame g ↔ frame = g := by
  cases f <;> first | exact h.elim | exact Iff.rfl

theorem Away.unjudged (h : f.Away) (p : Nat) : f.Unjudged p := by
  cases f <;> first | exact h.elim | trivial

/-- When one participant more is judged, all others are where they were. -/
theorem unjudged_of_ne {view : View} {next p : Nat} {evicted evicted' : List Nat} (hp : p ≠ next)
    (hevicted : p ∈ evicted → p ∈ evicted') :
    (judging view (next + 1) evicted').Unjudged p ∨ ¬ (judging view next evicted).Unjudged p := by
  by_cases hmem : p ∈ evicted
  · exact .inl (.inr (hevicted hmem))
  · by_cases hle : next ≤ p
    · exact .inl (.inl (by omega))
    · exact .inr fun hu => hu.elim hle hmem

/-- When the generation completes in which the coordinator stands, the frames are counted as before. -/
theorem Counted.next (h : f.Counted frame g) (hs : f.stands g = 1) :
    f.Counted frame (g + 1) ∧ f.stands (g + 1) = 0 ∧ frame = g + 1 := by
  cases f with
  | awaiting _ k | reawaiting _ _ k =>
    obtain rfl : k = g := by
      by_contra hk
      simp [stands, hk] at hs
    exact ⟨⟨h.1, .inr rfl⟩, if_neg (Nat.ne_of_lt (Nat.lt_succ_self _)), h.1⟩
  | _ => cases hs

end Phase

namespace System

variable {s t : System} {keeps : Behaviour}

/-- What holds while the barrier is open. -/
structure Attends (s : System) : Prop where
  muster : s.pool.Musters (s.phase.stands s.pool.barrier.generation)
  count : s.pool.workers.length = s.coordinator.participantCount
  counted : s.phase.Counted s.coordinator.frameIndex s.pool.barrier.generation
  judged : ∀ (p : Nat) (w : Worker), s.pool.workers[p]? = some w →
    s.coordinator.frameIndex = s.pool.barrier.generation + 1 →
    s.phase.Unjudged p ∨ w.Excused s.coordinator.frameIndex

/-! ### Moves of others -/

/-- Something happens to connections, and the coordinator goes from one phase to another that means
the same at the barrier. -/
theorem Attends.kept (h : s.Attends) (hk : s.pool.Keeps t.pool)
    (hcount : t.coordinator.participantCount = s.coordinator.participantCount)
    (hstands : t.phase.stands s.pool.barrier.generation = s.phase.stands s.pool.barrier.generation)
    (hcounted : t.phase.Counted t.coordinator.frameIndex s.pool.barrier.generation)
    (hjudged : ∀ (p : Nat) (v : Worker), t.pool.workers[p]? = some v →
      t.phase.Unjudged p ∨ v.Excused t.coordinator.frameIndex ∨
        ¬ s.phase.Unjudged p ∧ t.coordinator.frameIndex = s.coordinator.frameIndex) : t.Attends where
  muster := by
    rw [hk.barrier, hstands]
    exact h.muster.keeps hk
  count := by rw [hcount, ← h.count, hk.workers.length_eq]
  counted := by
    rw [hk.barrier]
    exact hcounted
  judged p v hv hframe := by
    rw [hk.barrier] at hframe
    rcases hjudged p v hv with hu | he | ⟨hu, hsame⟩
    · exact .inl hu
    · exact .inr he
    · obtain ⟨w, hw, hkeeps⟩ := hk.getElem? hv
      rw [hsame] at hframe ⊢
      exact .inr (hkeeps.excused ((h.judged p w hw hframe).resolve_left hu))

/-- Away from the barrier nothing is to be said of participants. -/
theorem Attends.away (h : s.Attends) (hk : s.pool.Keeps t.pool)
    (hcount : t.coordinator.participantCount = s.coordinator.participantCount)
    (hframe : t.coordinator.frameIndex = s.coordinator.frameIndex) (hs : s.phase.Away)
    (ht : t.phase.Away) : t.Attends := by
  refine h.kept hk hcount (by rw [ht.stands, hs.stands]) ?_ fun p _ _ => .inl (ht.unjudged p)
  rw [ht.counted, hframe]
  exact hs.counted.1 h.counted

theorem Attends.worker (h : s.Attends) {q : Nat} {pool : Pool} (hstep : s.pool.step q = some pool) :
    Attends { s with pool } := by
  obtain ⟨w, w', stored, hw, hstepped⟩ := Pool.step_spec hstep
  have hworks := Pool.works_of_step h.muster.tallies.opened hw (h.muster.fits q w hw) hstep
  have hcount : pool.workers.length = s.coordinator.participantCount := by
    rw [hstepped.workers, List.length_set, h.count]
  rcases h.muster.works hw hworks with ⟨hmuster, hsame⟩ | ⟨hstands, hmuster, hnext⟩
  · refine ⟨?_, hcount, ?_, ?_⟩
    · show pool.Musters (s.phase.stands pool.barrier.generation)
      rw [hsame]
      exact hmuster
    · show s.phase.Counted _ pool.barrier.generation
      rw [hsame]
      exact h.counted
    · intro p v hv hframe
      change s.coordinator.frameIndex = pool.barrier.generation + 1 at hframe
      rw [hsame] at hframe
      obtain ⟨u, hu, hexcused⟩ := h.muster.excused hw hworks hv
      rw [← hframe] at hexcused
      exact (h.judged p u hu hframe).imp_right hexcused
  -- the coordinator was standing in the generation that is complete now
  · obtain ⟨hcounted, hzero, hframe⟩ := h.counted.next hstands
    refine ⟨?_, hcount, ?_, ?_⟩
    · show pool.Musters (s.phase.stands pool.barrier.generation)
      rw [hnext, hzero]
      exact hmuster
    · show s.phase.Counted _ pool.barrier.generation
      rw [hnext]
      exact hcounted
    · intro p v _ hframe'
      change s.coordinator.frameIndex = pool.barrier.generation + 1 at hframe'
      rw [hnext, hframe] at hframe'
      omega

/-- Once a generation is complete, nothing is to be said of participants. -/
theorem attends_of_away (hmuster : t.pool.Musters 0)
    (hcount : t.pool.workers.length = t.coordinator.participantCount)
    (hframe : t.coordinator.frameIndex = t.pool.barrier.generation) (ht : t.phase.Away) : t.Attends where
  muster := by
    rw [ht.stands]
    exact hmuster
  count := hcount
  counted := ht.counted.2 hframe
  judged p _ _ _ := .inl (ht.unjudged p)

/-! ### The coordinator's connections -/

theorem putProxy_keeps (s : System) (q : Nat) (r : Proxy) : s.pool.Keeps (s.putProxy q r).pool := by
  unfold putProxy
  split
  · exact .refl _
  · exact s.pool.keeps_modify q s.pool.events fun _ _ => rfl

theorem closeConnection_keeps (s : System) (q : Nat) : s.pool.Keeps (s.closeConnection q).pool := by
  unfold closeConnection
  split
  · exact putProxy_keeps s q _
  · exact .refl _

theorem takeReport_keeps (s : System) (e : WorkerEvent) (rest : List WorkerEvent) :
    s.pool.Keeps (s.takeReport e rest).pool := by
  unfold takeReport
  simp only
  split
  · obtain ⟨h1, h2, h3⟩ := closeConnection_keeps { s with pool := { s.pool with events := rest } }
      e.participant
    exact ⟨h1, h2, h3⟩
  · obtain ⟨h1, h2, h3⟩ := Pool.Keeps.refl s.pool
    exact ⟨h1, h2, h3⟩

theorem sendTo_keeps (s : System) (q : Nat) (c : Command) : s.pool.Keeps (s.sendTo q c).2.pool := by
  unfold sendTo
  split
  · exact putProxy_keeps s q _
  · exact .refl _

theorem modifyInbox_keeps (s : System) (q : Nat) {f : Inbox → Inbox}
    (hf : ∀ b, b.receiver.closed → (f b).receiver.closed) : s.pool.Keeps (s.modifyInbox q f).pool :=
  s.pool.keeps_modify q s.pool.events hf

/-- The worker of a participant whose connection was closed does not block. -/
theorem closeConnection_excused (h : s.Attends) {q : Nat} {v : Worker}
    (hv : (s.closeConnection q).pool.workers[q]? = some v) (frame : Nat) : v.Excused frame := by
  unfold closeConnection at hv
  split at hv
  · rename_i r hr
    have hclose : r.close.isConnected = false := r.close_isConnected
    unfold putProxy at hv
    rw [hclose, if_neg Bool.false_ne_true] at hv
    change (s.pool.workers.modify q _)[q]? = some v at hv
    rw [List.getElem?_modify_eq] at hv
    obtain ⟨w, -, rfl⟩ := Option.map_eq_some_iff.1 hv
    exact .inl rfl
  · rename_i hr
    have hlt := (List.getElem?_eq_some_iff.1 hv).1
    rw [h.count] at hlt
    exact absurd hlt (Nat.not_lt_of_le (List.getElem?_eq_none_iff.1 hr))

/-! ### The coordinator at the barrier -/

/-- The coordinator arrives. It completes the generation, or waits. -/
theorem Attends.arrive (h : s.Attends) {view : View} {evicted : List Nat} {wait : Nat → Phase}
    (hstands : s.phase.stands s.pool.barrier.generation = 0)
    (hframe : s.coordinator.frameIndex = s.pool.barrier.generation + 1)
    (hwait : (wait s.pool.barrier.generation).stands s.pool.barrier.generation = 1 ∧
      (wait s.pool.barrier.generation).Counted (s.pool.barrier.generation + 1) s.pool.barrier.generation)
    (hjudged : ∀ p, (wait s.pool.barrier.generation).Unjudged p ∨ ¬ s.phase.Unjudged p) :
    (s.arrive view evicted wait).Attends := by
  have hmuster := h.muster
  rw [hstands] at hmuster
  unfold System.arrive
  rcases hmuster.arrive with ⟨harrive, hnext⟩ | ⟨b, harrive, hb, hnext⟩
  · rw [harrive]
    exact attends_of_away hnext h.count hframe trivial
  · rw [harrive]
    refine ⟨?_, h.count, ?_, ?_⟩
    · show Pool.Musters _ ((wait s.pool.barrier.generation).stands b.generation)
      rw [hb, hwait.1]
      exact hnext
    · show (wait s.pool.barrier.generation).Counted s.coordinator.frameIndex b.generation
      rw [hb, hframe]
      exact hwait.2
    · intro p v hv _
      exact (hjudged p).imp_right fun hu => (h.judged p v hv hframe).resolve_left hu

/-- A wait that ends was for a generation that is complete. -/
theorem Attends.wake (h : s.Attends) {view : View} {evicted : List Nat} {g : Nat} {r : WaitResult}
    (hstands : s.phase.stands s.pool.barrier.generation = if g = s.pool.barrier.generation then 1 else 0)
    (hcounted : s.coordinator.frameIndex = g + 1 ∧
      (g = s.pool.barrier.generation ∨ g + 1 = s.pool.barrier.generation))
    (hr : s.pool.barrier.poll g = some r) : (s.afterWait view evicted r).Attends := by
  rw [h.muster.tallies.poll] at hr
  split at hr
  · cases hr
  · rename_i hg
    cases hr
    have hmuster := h.muster
    rw [hstands, if_neg (Ne.symm hg)] at hmuster
    refine attends_of_away hmuster h.count ?_ trivial
    exact hcounted.1.trans (hcounted.2.resolve_left (Ne.symm hg))

/-- The time of the first wait runs out: the arrival is taken back, unless it is too late for that. -/
theorem Attends.expire (h : s.Attends) (he : s.expire = some t) : t.Attends := by
  unfold System.expire at he
  split at he
  · rename_i view g hph
    have hmuster := h.muster
    have hcounted := h.counted
    rw [hph] at hmuster hcounted
    by_cases hg : s.pool.barrier.generation = g
    · subst hg
      rw [h.muster.tallies.expire_current.1] at he
      cases he
      have hone : Phase.stands s.pool.barrier.generation (.awaiting view s.pool.barrier.generation) = 1 :=
        if_pos rfl
      rw [hone] at hmuster
      refine ⟨hmuster.withdraw, h.count, hcounted.1, fun p _ _ _ => .inl (.inl (Nat.zero_le p))⟩
    · rw [h.muster.tallies.expire_past hg] at he
      cases he
      have hzero : Phase.stands s.pool.barrier.generation (.awaiting view g) = 0 :=
        if_neg (Ne.symm hg)
      rw [hzero] at hmuster
      refine attends_of_away hmuster h.count ?_ trivial
      exact hcounted.1.trans (hcounted.2.resolve_left (Ne.symm hg))
  · cases he

/-! ### The coordinator's moves -/

/-- A worker that has noted its end is excused. -/
theorem excused_of_isAlive {p : Nat} {w : Worker} (h : s.pool.isAlive p = false)
    (hw : s.pool.workers[p]? = some w) (frame : Nat) : w.Excused frame := by
  rw [Pool.isAlive, hw] at h
  exact .inr (.inl h)

/-- A worker whose image is that of the frame is excused. -/
theorem Attends.excused_of_isFresh (h : s.Attends) {p frame : Nat} {w : Worker}
    (hfresh : s.pool.slots.isFresh p frame) (hw : s.pool.workers[p]? = some w) : w.Excused frame := by
  obtain ⟨image, himage⟩ := Option.isSome_iff_exists.1 hfresh
  have hslot : s.pool.slots.get p = some ⟨frame, image⟩ := by
    rw [Slots.get, fresh_eq_some himage]
    rfl
  exact .inr (.inr (h.muster.slots p w hw _ hslot).symm)

section Judging

variable {view : View} {next : Nat} {evicted : List Nat}

/-- A participant whose worker works is judged by its image. -/
theorem Attends.judge (h : s.Attends) (hph : s.phase = .judging view next evicted) :
    (s.goTo (.checking view next evicted)).Attends := by
  have hcounted := h.counted
  rw [hph] at hcounted
  refine h.kept (.refl _) rfl (by rw [hph]; rfl) hcounted fun p v _ => ?_
  rw [hph]
  by_cases hu : (Phase.judging view next evicted).Unjudged p
  · exact .inl hu
  · exact .inr (.inr ⟨hu, rfl⟩)

/-- A participant whose worker has noted its end needs no eviction. -/
theorem Attends.excuse (h : s.Attends) (hph : s.phase = .judging view next evicted)
    (hdead : s.pool.isAlive next = false) : (s.goTo (.judging view (next + 1) evicted)).Attends := by
  have hcounted := h.counted
  rw [hph] at hcounted
  refine h.kept (.refl _) rfl (by rw [hph]; rfl) hcounted fun p v hv => ?_
  rw [hph]
  by_cases hp : p = next
  · subst hp
    exact .inr (.inl (excused_of_isAlive hdead hv _))
  · exact (Phase.unjudged_of_ne hp id).imp_right fun hu => .inr ⟨hu, rfl⟩

/-- A participant whose image is that of the frame is not evicted. -/
theorem Attends.check (h : s.Attends) (hph : s.phase = .checking view next evicted) :
    (s.goTo (.judging view (next + 1)
      (if !s.pool.slots.isFresh next s.coordinator.frameIndex then evicted ++ [next]
        else evicted))).Attends := by
  have hcounted := h.counted
  rw [hph] at hcounted
  refine h.kept (.refl _) rfl (by rw [hph]; rfl) hcounted fun p v hv => ?_
  rw [hph]
  by_cases hp : p = next
  · subst hp
    by_cases hfresh : s.pool.slots.isFresh p s.coordinator.frameIndex
    · exact .inr (.inl (h.excused_of_isFresh hfresh hv))
    · exact .inl (.inr (by simp [hfresh]))
  · refine (Phase.unjudged_of_ne hp fun hmem => ?_).imp_right fun hu => .inr ⟨hu, rfl⟩
    split
    · exact List.mem_append_left _ hmem
    · exact hmem

/-- In the end everybody is judged. -/
theorem Attends.decide (h : s.Attends) (hph : s.phase = .judging view next evicted)
    (hle : s.coordinator.participantCount ≤ next) :
    (s.goTo (.evicting view evicted evicted)).Attends := by
  have hcounted := h.counted
  rw [hph] at hcounted
  refine h.kept (.refl _) rfl (by rw [hph]; rfl) hcounted fun p v hv => ?_
  rw [hph]
  have hlt := (List.getElem?_eq_some_iff.1 hv).1
  change p < s.pool.workers.length at hlt
  rw [h.count] at hlt
  by_cases hu : p ∈ evicted
  · exact .inl hu
  · refine .inr (.inr ⟨fun hs => ?_, rfl⟩)
    rcases hs with hs | hs
    · omega
    · exact hu hs

/-- One connection is closed after the other. -/
theorem Attends.evict (h : s.Attends) {q : Nat} {rest : List Nat}
    (hph : s.phase = .evicting view (q :: rest) evicted) :
    ((s.closeConnection q).goTo (.evicting view rest evicted)).Attends := by
  have hc : Changes s.phase.Sends anything s (s.closeConnection q) := closeConnection_changes s q
  have hcounted := h.counted
  rw [hph] at hcounted
  have hframe := (closeConnection_books s q).frameIndex
  refine h.kept (closeConnection_keeps s q) hc.count (by rw [hph]; rfl) (hframe.trans hcounted)
    fun p v hv => ?_
  rw [hph]
  by_cases hp : p = q
  · subst hp
    exact .inr (.inl (closeConnection_excused h hv _))
  · by_cases hmem : p ∈ rest
    · exact .inl hmem
    · exact .inr (.inr ⟨fun hs => (List.mem_cons.1 hs).elim hp hmem, hframe⟩)

theorem Attends.evict_nil (h : s.Attends) (hph : s.phase = .evicting view [] evicted) :
    (s.goTo (.rejoining view evicted)).Attends := by
  have hcounted := h.counted
  rw [hph] at hcounted
  refine h.kept (.refl _) rfl (by rw [hph]; rfl) hcounted fun p v _ => ?_
  rw [hph]
  exact .inr (.inr ⟨List.not_mem_nil, rfl⟩)

end Judging

theorem Attends.advance (h : s.Attends) (ha : s.advance = some t)
    (hopen : t.pool.barrier.closed = false) : t.Attends := by
  have hc : Changes s.phase.Sends anything s t := advance_changes ha
  have hcount := hc.count
  have hcounted := h.counted
  cases acts_of_advance ha with
  -- the frame begins
  | begin hph =>
    have haway : s.phase.Away := by rw [hph]; trivial
    refine h.kept (.refl _) hcount (haway.stands _).symm ?_ fun p _ _ => .inl trivial
    exact congrArg (· + 1) (haway.counted.1 hcounted)
  -- the coordinator's generation is not complete, and nobody is judged yet
  | @send view q _ hph =>
    rw [hph] at hcounted
    refine h.kept (sendTo_keeps s q _) hcount (by rw [hph]; rfl) ?_ fun p _ _ => .inl trivial
    exact (sendTo_books s q _).frameIndex.trans hcounted
  | sent hph =>
    rw [hph] at hcounted
    exact h.kept (.refl _) hcount (by rw [hph]; rfl) hcounted fun p _ _ => .inl trivial
  | meet hph =>
    rw [hph] at hcounted
    exact h.arrive (by rw [hph]; rfl) hcounted ⟨if_pos rfl, rfl, .inl rfl⟩ fun p => .inl trivial
  | wake hph hr | rewake hph hr =>
    rw [hph] at hcounted
    exact h.wake (by rw [hph]; rfl) hcounted hr
  | judge hph => exact h.judge hph
  | excuse hph _ hdead => exact h.excuse hph hdead
  | check hph => exact h.check hph
  | decide hph hle => exact h.decide hph hle
  | evict hph => exact h.evict hph
  | evicted hph => exact h.evict_nil hph
  | rejoin hph =>
    rw [hph] at hcounted
    refine h.arrive (by rw [hph]; rfl) hcounted ⟨if_pos rfl, rfl, .inl rfl⟩ fun p => .inr ?_
    rw [hph]
    exact id
  -- the generation of the frame is complete
  | @reap _ e rest hph =>
    have haway : s.phase.Away := by rw [hph]; trivial
    refine h.away (takeReport_keeps s e rest) hcount (takeReport_books s e rest).frameIndex haway ?_
    rw [takeReport_phase]
    exact haway
  | @collect _ _ _ e rest hph =>
    exact h.away (takeReport_keeps s e rest) hcount (takeReport_books s e rest).frameIndex
      (by rw [hph]; trivial) trivial
  | finish hph hfinish =>
    obtain ⟨framebuffer, rfl⟩ := finish_eq hfinish
    exact h.away (.refl _) hcount rfl (by rw [hph]; trivial) trivial
  | @tell c next _ _ hph =>
    exact h.away (sendTo_keeps s next c) hcount (sendTo_books s next c).frameIndex
      (by rw [hph]; trivial) trivial
  | @exit next _ _ r hph =>
    exact h.away (putProxy_keeps s next r.exit.2) hcount rfl (by rw [hph]; trivial) trivial
  | @close next _ hph =>
    exact h.away (s.pool.keeps_modify next s.pool.events fun _ _ => rfl) hcount rfl
      (by rw [hph]; trivial) trivial
  | reaped hph | look hph | nobody hph | collected hph | gather hph | crash hph | skip hph | told hph
  | exited hph | closed hph | join hph | joined hph =>
    exact h.away (.refl _) hcount rfl (by rw [hph]; trivial) trivial
  | closeBarrier => cases hopen

/-! ### All moves -/

/-- A closed barrier stays closed. -/
theorem closed_of_turn (hturn : Turn s t) (h : s.advance = some t ∨ s.expire = some t)
    (hs : s.pool.barrier.closed) : t.pool.barrier.closed := by
  cases hturn with
  | closeBarrier hph =>
    rcases h with h | h
    · simp only [System.advance, hph] at h
      cases h
      rfl
    · simp only [System.expire, hph] at h
      cases h
  | reap _ _ same | look _ _ _ same | send _ _ same | sent _ _ same | wait _ _ same | collect _ _ same
  | crash _ _ same | tell _ _ same | exit _ _ _ same | exited _ _ _ same | close _ _ same
  | join _ _ same =>
    rw [same.closed]
    exact hs
  | nobody _ _ _ hr | refuse _ _ _ hr | finish _ _ hr | told _ _ hr | joined _ _ hr =>
    rw [hr.closed]
    exact hs
  | begin _ _ _ _ _ hclosed | gather _ _ _ hclosed =>
    rw [hclosed]
    exact hs

theorem start_barrier (s : System) (op : Operation) :
    (s.start op).pool.barrier = s.pool.barrier := by
  unfold start
  split
  · rfl
  · rfl
  · split
    · rfl
    · simp only
      split <;> rfl
  · rfl
  · split <;> rfl

/-- An operation that begins changes nothing at the barrier. -/
theorem Attends.start (h : s.Attends) (hidle : s.phase = .idle) (op : Operation) :
    (s.start op).Attends := by
  have hsame := start_same s op
  have haway : s.phase.Away := by rw [hidle]; trivial
  have hkeeps : s.pool.Keeps (s.start op).pool := by
    refine ⟨start_barrier s op, hsame.slots, ?_⟩
    rw [hsame.workers]
    exact (Pool.Keeps.refl s.pool).workers
  obtain ⟨hframe, hstarted⟩ : (s.start op).coordinator.frameIndex = s.coordinator.frameIndex ∧
      (s.start op).phase.Away := by
    cases start_begins s op with
    | render ht => rw [ht]; exact ⟨rfl, trivial⟩
    | other hframe _ hph =>
      refine ⟨hframe, ?_⟩
      rcases hph with ⟨c, -, hph⟩ | hph | hph | ⟨f, hph⟩ <;> rw [hph] <;> trivial
  exact h.away hkeeps hsame.count hframe haway hstarted

/-- Every move keeps the invariant, as long as the barrier is open. -/
theorem Attends.step (h : s.pool.barrier.closed = false → s.Attends) (hstep : Step keeps s t)
    (hopen : t.pool.barrier.closed = false) : t.Attends := by
  have hwas : (s.pool.barrier.closed → t.pool.barrier.closed) → s.Attends := fun hclosed =>
    h (Bool.eq_false_iff.2 fun hs => by rw [hclosed hs] at hopen; cases hopen)
  obtain ⟨m, hm, -⟩ := hstep
  cases m with
  | ask op =>
    simp only [move] at hm
    split at hm
    · rename_i hidle
      cases hm
      exact (hwas fun hs => by rw [start_barrier]; exact hs).start hidle op
    · cases hm
  | coordinator =>
    exact (hwas (closed_of_turn (advance_turn hm) (.inl hm))).advance hm hopen
  | timeout => exact (hwas (closed_of_turn (expire_turn hm) (.inr hm))).expire hm
  | worker q =>
    obtain ⟨pool, hpool, rfl⟩ := Option.map_eq_some_iff.1 hm
    obtain ⟨w, w', stored, -, hstepped⟩ := Pool.step_spec hpool
    exact (hwas fun hs => hstepped.closed.trans hs).worker hpool
  -- what participants do concerns connections only
  | deliver q bytes =>
    obtain rfl := deliver_eq hm
    exact (hwas id).kept (modifyInbox_keeps s q (f := (·.deliver bytes)) fun _ => id) rfl rfl
      (hwas id).counted
      fun p _ _ => (Classical.em (s.phase.Unjudged p)).imp_right fun hu => .inr ⟨hu, rfl⟩
  | hangUp q failure =>
    obtain rfl := hangUp_eq hm
    exact (hwas id).kept (modifyInbox_keeps s q fun _ => id) rfl rfl (hwas id).counted
      fun p _ _ => (Classical.em (s.phase.Unjudged p)).imp_right fun hu => .inr ⟨hu, rfl⟩

theorem attends_of_ofPlan {config : ClusterConfig} {plan : Plan} {connections : List Connection}
    (h : System.ofPlan config plan connections = .ok s) : s.Attends := by
  obtain ⟨-, hframe, hpool, hphase, -⟩ := ofPlan_eq h
  refine attends_of_away ?_ ?_ ?_ (by rw [hphase]; trivial)
  · rw [hpool]
    exact Pool.musters_ofInboxes _
  · rw [hpool, participantCount_ofPlan h, Pool.ofInboxes, List.length_map, List.length_map]
  · rw [hframe, hpool]
    rfl

theorem attends_of_run (h : s.pool.barrier.closed = false → s.Attends) (hrun : Run keeps s t)
    (hopen : t.pool.barrier.closed = false) : t.Attends := by
  induction hrun with
  | refl => exact h hopen
  | tail _ hstep ih => exact Attends.step (fun hs => ih hs) hstep hopen

/-! ### The second wait -/

/-- After the coordinator has evicted participants, it waits only for a generation that is complete, or
for workers each of which can move: none of them waits for its participant, or for another generation. -/
theorem reawaiting_enabled {config : ClusterConfig} {plan : Plan} {connections : List Connection}
    {s₀ s : System} (h₀ : System.ofPlan config plan connections = .ok s₀) (hrun : Run anything s₀ s)
    {view : View} {evicted : List Nat} {g : Nat} (hph : s.phase = .reawaiting view evicted g) :
    (s.pool.barrier.generation = g + 1 ∧ s.advance.isSome) ∨
    (s.pool.barrier.generation = g ∧ s.advance = none ∧
      (∃ (p : Nat) (w : Worker), s.pool.workers[p]? = some w ∧ w.phase ≠ .exited ∧
        w.phase ≠ .waiting g ∧ (s.pool.step p).isSome) ∧
      ∀ (p : Nat) (w : Worker), s.pool.workers[p]? = some w → w.phase = .exited ∨
        w.phase = .waiting g ∨
        ((s.pool.step p).isSome ∧ (w.phase = .receiving → w.inbox.receiver.closed))) := by
  have hopen : s.pool.barrier.closed = false := by
    have hresting := ((steady_of_ofPlan h₀).run hrun).resting
    rw [hph] at hresting
    exact Bool.eq_false_iff.2 hresting
  have h := attends_of_run (fun _ => attends_of_ofPlan h₀) hrun hopen
  have hcounted := h.counted
  rw [hph] at hcounted
  obtain ⟨hframe, rfl | hnext⟩ := hcounted
  -- the coordinator is counted, and not everybody is
  · have hmuster := h.muster
    have hone : s.phase.stands s.pool.barrier.generation = 1 := by
      rw [hph]
      exact if_pos rfl
    rw [hone] at hmuster
    have hexcused : ∀ (p : Nat) (w : Worker), s.pool.workers[p]? = some w →
        w.Excused (s.pool.barrier.generation + 1) := by
      intro p w hw
      rw [← hframe]
      refine (h.judged p w hw hframe).resolve_left ?_
      rw [hph]
      exact id
    have hsum := s.pool.attending_eq s.pool.barrier.generation
    have hbelow := hmuster.tallies.below
    obtain ⟨p, w, hw, habsent⟩ := Pool.absences_pos (p := s.pool) (g := s.pool.barrier.generation)
      (by omega)
    have hne : w.phase ≠ .exited ∧ w.phase ≠ .waiting s.pool.barrier.generation := by
      constructor <;> intro he <;> rw [he] at habsent <;> simp [WorkerPhase.isAbsent] at habsent
    refine .inr ⟨rfl, ?_, ⟨p, w, hw, hne.1, hne.2, ?_⟩, fun q v hv =>
      hmuster.step_isSome hv (hexcused q v hv)⟩
    · simp only [System.advance, hph, h.muster.tallies.poll, if_pos, Option.map_none]
    · rcases hmuster.step_isSome hw (hexcused p w hw) with he | he | he
      · exact absurd he hne.1
      · exact absurd he hne.2
      · exact he.1
  · refine .inl ⟨hnext.symm, ?_⟩
    have hg : s.pool.barrier.generation ≠ g := by omega
    simp only [System.advance, hph, h.muster.tallies.poll, if_neg hg, Option.map_some,
      Option.isSome_some]

/-- A frame that participant 1 misses. The coordinator has closed its connection and waits again, with
the worker of participant 0. -/
def missed (s : System) : Option System :=
  (s.start (.render .default)).follow Duo.participants
    (List.replicate 8 Duo.turn ++ Duo.arrival 0 ++ [fun _ => some .timeout] ++
      List.replicate 8 Duo.turn)

theorem reawaiting_enabled_of_missed : ∃ s₀ s, Duo.start = some s₀ ∧ Run anything s₀ s ∧
    s.phase = .reawaiting .default [1] 0 ∧ s.advance = none ∧
    ∃ (p : Nat) (w : Worker), s.pool.workers[p]? = some w ∧ w.phase ≠ .exited ∧
      w.phase ≠ .waiting 0 ∧ (s.pool.step p).isSome := by
  have hphases : (Duo.start.bind fun s₀ => (missed s₀).map fun s =>
      (s₀.phase, s.phase, s.pool.barrier.generation)) =
        some (.idle, .reawaiting .default [1] 0, 0) := by decide +kernel
  obtain ⟨s₀, hs₀, hmissed⟩ := Option.bind_eq_some_iff.1 hphases
  obtain ⟨s, hs, hphases⟩ := Option.map_eq_some_iff.1 hmissed
  obtain ⟨hidle, hph, hgeneration⟩ : s₀.phase = .idle ∧ s.phase = .reawaiting .default [1] 0 ∧
      s.pool.barrier.generation = 0 := by
    simpa using hphases
  obtain ⟨-, config, -, plan, connections, -, -, h₀⟩ := Duo.connected_of_start hs₀
  have hrun : Run anything s₀ s := (follow_within hs).run hidle
  rcases reawaiting_enabled h₀ hrun hph with ⟨hnext, -⟩ | ⟨-, hblocked, hworker, -⟩
  · rw [hgeneration] at hnext
    cases hnext
  · exact ⟨s₀, s, hs₀, hrun, hph, hblocked, hworker⟩

end System
end SortLast
