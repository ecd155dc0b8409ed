import SortLast.Proofs.Cluster.Farewell
import SortLast.Proofs.Cluster.Latest
import SortLast.Proofs.Cluster.Retiring

/-!
# Shutdown

The first shutdown tells every participant that is still connected to stop, once, whatever becomes of the
others; it closes the barrier and waits until all workers have exited. After it the cluster is still there
to be asked, but nobody hears anything any more, and no frame begins.

* `System.Over`: a shutdown that is over; `System.Halts`: how far shutdowns have got, in every state.
* `System.Silent`: what holds from a closed barrier on.
* `System.Dismissing`: the states of the first shutdown.
* `System.turnsLeft`, `System.Answering`: a call that is certain to be answered.
* `System.shutdown_final`: all of it, for all runs of a cluster.
-/

namespace SortLast

namespace System

variable {s t u : System} {keeps : Behaviour} {view : View}

theorem exited_of_step {n : Nat} (h : s.pool.Exited n) (hstep : Step keeps s t) :
    t.pool.Exited n := by
  rcases step_tends hstep with htends | ⟨q, pool, hpool, rfl⟩
  · exact h.keeps htends.workers
  · exact h.step hpool

/-- A barrier is closed for good. -/
theorem closed_of_step (h : s.pool.barrier.closed) (hstep : Step keeps s t) :
    t.pool.barrier.closed := by
  rcases step_moves hstep with hm | hm | ⟨-, op, rfl⟩ | ⟨-, hbooks, -⟩
  · exact closed_of_turn (advance_turn hm) (.inl hm) h
  · exact closed_of_turn (expire_turn hm) (.inr hm) h
  · rwa [start_barrier]
  · rwa [hbooks.closed]

/-- A shutdown is over: the barrier is closed, and all workers have exited. -/
structure Over (s : System) : Prop where
  closed : s.pool.barrier.closed
  exited : ∀ n, s.pool.Exited n

theorem Over.step (h : s.Over) (hstep : Step keeps s t) : t.Over :=
  ⟨closed_of_step h.closed hstep, fun n => exited_of_step (h.exited n) hstep⟩

theorem Over.run (h : s.Over) (hrun : Run keeps s t) : t.Over := by
  induction hrun with
  | refl => exact h
  | tail _ hstep ih => exact ih.step hstep

/-- A connection that is closed stays closed. -/
theorem inbox_of_step (hstep : Step keeps s t) {q : Nat} {v : Worker}
    (hv : t.pool.workers[q]? = some v) :
    ∃ w, s.pool.workers[q]? = some w ∧ (w.inbox.receiver.closed → v.inbox.receiver.closed) := by
  rcases step_tends hstep with htends | ⟨r, pool, hpool, rfl⟩
  · obtain ⟨w, hw, hwv⟩ := Pool.exists_keeps htends.workers hv
    exact ⟨w, hw, hwv.closed⟩
  · obtain ⟨w, w', hw, hworkers, -, hclosed⟩ := Pool.retires_of_step hpool
    rw [hworkers] at hv
    by_cases hr : r = q
    · subst hr
      rw [List.getElem?_set_self (List.getElem?_eq_some_iff.1 hw).1] at hv
      cases hv
      exact ⟨w, hw, hclosed⟩
    · rw [List.getElem?_set_ne hr] at hv
      exact ⟨v, hv, id⟩

/-- Workers do not come and do not go. -/
theorem workers_of_step (hstep : Step keeps s t) :
    t.pool.workers.length = s.pool.workers.length := by
  rcases step_tends hstep with htends | ⟨r, pool, hpool, rfl⟩
  · exact htends.workers.length_eq.symm
  · obtain ⟨w, w', -, hworkers, -⟩ := Pool.retires_of_step hpool
    rw [hworkers, List.length_set]

end System

/-! ### How far shutdowns have got -/

/-- A shutdown has closed the receiving end of this participant's connection. -/
def Phase.Shuts : Phase → Nat → Prop
  | closing next _, q => q < next
  | closingBarrier _, _ | joining .., _ => True
  | _, _ => False

theorem Phase.Shuts.shutsDown {f : Phase} {q : Nat} (h : f.Shuts q) : f.ShutsDown := by
  cases f with
  | closing | closingBarrier | joining => trivial
  | _ => exact h.elim

namespace System

variable {s t u : System} {keeps : Behaviour} {view : View}

/-- Only a shutdown that was asked for is under way. Where it waits for a worker, it has closed the barrier
and the workers before that one have exited; and if it is not under way any more, it is over. -/
structure Halts (s : System) : Prop where
  asked : s.phase.ShutsDown → s.coordinator.isShutDown
  shut : ∀ q w, s.phase.Shuts q → s.pool.workers[q]? = some w → w.inbox.receiver.closed
  joining : ∀ next first, s.phase = .joining next first →
    s.pool.barrier.closed ∧ s.pool.Exited next
  ended : s.coordinator.isShutDown → ¬ s.phase.ShutsDown → s.Over

theorem Turn.isShutDown (h : Turn s t) : t.coordinator.isShutDown = s.coordinator.isShutDown := by
  obtain ⟨_, _, _, hbooks⟩ := h.books_eq
  have hflag := congrArg Coordinator.isShutDown hbooks
  exact hflag

/-- No turn begins a shutdown. -/
theorem Turn.shutsDown (h : Turn s t) (ht : t.phase.ShutsDown) : s.phase.ShutsDown := by
  cases h with
  | exit hs | exited hs | close hs | closeBarrier hs | join hs => rw [hs]; trivial
  | wait _ hwait =>
    generalize t.phase = f at hwait ht
    cases f with
    | exiting | closing | closingBarrier | joining => exact hwait.elim
    | _ => exact ht.elim
  | reap _ hph => rcases hph with hph | hph <;> rw [hph] at ht <;> exact ht.elim
  | look _ _ hph => rcases hph with hph | ⟨-, hph⟩ <;> rw [hph] at ht <;> exact ht.elim
  | nobody _ _ _ hr | refuse _ _ _ hr | finish _ _ hr | told _ _ hr | joined _ _ hr =>
    rw [hr.phase] at ht
    exact ht.elim
  | begin _ _ _ hph => rw [hph] at ht; exact ht.elim
  | send _ hph | sent _ hph | collect _ hph | gather _ hph | crash _ hph | tell _ hph =>
    rw [hph] at ht
    exact ht.elim

/-- A shutdown is not timed. -/
theorem not_shutsDown_of_expire (h : s.expire = some t) : ¬ s.phase.ShutsDown := by
  unfold expire at h
  split at h
  · rename_i hph
    rw [hph]
    exact id
  · cases h

/-- An operation is the first shutdown, or none begins. -/
theorem start_shutsDown (s : System) (op : Operation) :
    ((s.start op).phase.ShutsDown →
      (s.start op).coordinator.isShutDown ∧ (s.start op).phase = .exiting 0 none) ∧
      (¬ (s.start op).phase.ShutsDown →
        (s.start op).coordinator.isShutDown = s.coordinator.isShutDown) := by
  cases op with
  | render view => exact ⟨fun h => h.elim, fun _ => rfl⟩
  | set r => exact ⟨fun h => h.elim, fun _ => rfl⟩
  | setBackground colour => exact ⟨fun h => h.elim, fun _ => rfl⟩
  | resize width height =>
    simp only [start]
    split
    · exact ⟨fun h => h.elim, fun _ => rfl⟩
    · split
      · exact ⟨fun h => h.elim, fun _ => rfl⟩
      · exact ⟨fun h => h.elim, fun _ => rfl⟩
  | shutdown =>
    simp only [start]
    split
    · exact ⟨fun h => h.elim, fun _ => rfl⟩
    · exact ⟨fun _ => ⟨rfl, rfl⟩, fun h => absurd trivial h⟩

/-- What is not a shutdown leaves one that is over. -/
theorem Halts.aside (h : s.Halts) (hstep : Step keeps s t)
    (hs : ¬ s.phase.ShutsDown) (ht : ¬ t.phase.ShutsDown)
    (hflag : t.coordinator.isShutDown = s.coordinator.isShutDown) : t.Halts where
  asked hph := absurd hph ht
  shut q w hph := absurd hph.shutsDown ht
  joining next first hph := absurd (by rw [hph]; trivial) ht
  ended hdown _ := by
    rw [hflag] at hdown
    exact (h.ended hdown hs).step hstep

/-- A shutdown that is under way. -/
theorem halts_of_shutsDown (hflag : t.coordinator.isShutDown) (ht : t.phase.ShutsDown)
    (hshut : ∀ q w, t.phase.Shuts q → t.pool.workers[q]? = some w → w.inbox.receiver.closed)
    (hjoining : ∀ next first, t.phase = .joining next first →
      t.pool.barrier.closed ∧ t.pool.Exited next) : t.Halts :=
  ⟨fun _ => hflag, hshut, hjoining, fun _ hno => absurd ht hno⟩

/-- The turns of a shutdown. -/
theorem Halts.winds (h : s.Halts) (hstep : Step keeps s t) (hshuts : s.phase.ShutsDown)
    (hw : Winds s t) (hflag : t.coordinator.isShutDown = s.coordinator.isShutDown) : t.Halts := by
  have hunder := halts_of_shutsDown (hflag.trans (h.asked hshuts))
  have hkept : ∀ q v, s.phase.Shuts q → t.pool.workers[q]? = some v → v.inbox.receiver.closed := by
    intro q v hq hv
    obtain ⟨w, hw, hclosed⟩ := inbox_of_step hstep hv
    exact hclosed (h.shut q w hq hw)
  cases hw with
  | exit _ _ ht =>
    rw [ht] at hunder
    exact hunder trivial (fun _ _ hf => hf.elim) fun _ _ => Phase.noConfusion
  | exited _ _ ht =>
    rw [ht] at hunder
    exact hunder trivial (fun q _ hq => absurd hq (Nat.not_lt_zero q)) fun _ _ => Phase.noConfusion
  | @close next first hs hlt ht _ hpool =>
    rw [ht] at hunder
    rw [hs] at hkept
    refine hunder trivial (fun q v hq hv => ?_) fun _ _ => Phase.noConfusion
    -- the connection that this turn has closed, or one closed before
    rcases Nat.lt_succ_iff_lt_or_eq.1 hq with hq | rfl
    · exact hkept q v hq hv
    · rw [hpool, Pool.closeInbox, List.getElem?_modify_eq] at hv
      obtain ⟨w, -, rfl⟩ := Option.map_eq_some_iff.1 hv
      rfl
  | closed hs hle ht =>
    rw [ht] at hunder
    rw [hs] at hkept
    refine hunder trivial (fun q v _ hv => hkept q v ?_ hv) fun _ _ => Phase.noConfusion
    have hq := (List.getElem?_eq_some_iff.1 hv).1
    rw [workers_of_step hstep] at hq
    exact Nat.lt_of_lt_of_le hq hle
  | closeBarrier hs ht _ hclosed =>
    rw [ht] at hunder
    rw [hs] at hkept
    refine hunder trivial hkept fun next first hph => ?_
    cases hph
    exact ⟨hclosed, fun q hq => absurd hq (Nat.not_lt_zero q)⟩
  | @join next first w hs hget hexited ht _ =>
    rw [ht] at hunder
    obtain ⟨hclosed, hbefore⟩ := h.joining next first hs
    rw [hs] at hkept
    refine hunder trivial hkept fun next' first' hph => ?_
    cases hph
    refine ⟨closed_of_step hclosed hstep, exited_of_step (fun q hq v hv => ?_) hstep⟩
    -- the worker that was waited for, or one before it
    rcases Nat.lt_succ_iff_lt_or_eq.1 hq with hlt | rfl
    · exact hbefore q hlt v hv
    · obtain rfl := Option.some.inj (hv.symm.trans hget)
      exact hexited
  | @joined next first hs hle ht _ _ =>
    obtain ⟨hclosed, hbefore⟩ := h.joining next first hs
    have hover : s.Over := ⟨hclosed, fun _ q _ v hv =>
      hbefore q (Nat.lt_of_lt_of_le (List.getElem?_eq_some_iff.1 hv).1 hle) v hv⟩
    constructor
    · rw [ht]
      exact fun hf => hf.elim
    · rw [ht]
      exact fun _ _ hf => hf.elim
    · rw [ht]
      exact fun _ _ => Phase.noConfusion
    · exact fun _ _ => hover.step hstep

theorem Halts.step (h : s.Halts) (hstep : Step keeps s t) : t.Halts := by
  rcases step_moves hstep with hm | hm | ⟨hidle, op, rfl⟩ | ⟨hph, hbooks, -⟩
  · have hturn := advance_turn hm
    by_cases hshuts : s.phase.ShutsDown
    · exact h.winds hstep hshuts (winds_of_advance hshuts hm) hturn.isShutDown
    · exact h.aside hstep hshuts (fun ht => hshuts (hturn.shutsDown ht)) hturn.isShutDown
  · have hturn := expire_turn hm
    have hshuts := not_shutsDown_of_expire hm
    exact h.aside hstep hshuts (fun ht => hshuts (hturn.shutsDown ht)) hturn.isShutDown
  · obtain ⟨hasked, hflag⟩ := start_shutsDown s op
    by_cases ht : (s.start op).phase.ShutsDown
    · obtain ⟨hflag, hph⟩ := hasked ht
      have hunder := halts_of_shutsDown hflag ht
      rw [hph] at hunder
      exact hunder (fun _ _ hf => hf.elim) fun _ _ => Phase.noConfusion
    · refine h.aside hstep ?_ ht (hflag ht)
      rw [hidle]
      exact id
  · have hflag : t.coordinator.isShutDown = s.coordinator.isShutDown := by
      have hsame := congrArg Coordinator.isShutDown hbooks.books
      exact hsame
    by_cases hshuts : s.phase.ShutsDown
    · refine halts_of_shutsDown (hflag.trans (h.asked hshuts)) (hph ▸ hshuts) (fun q v hq hv => ?_)
        fun next first ht => ?_
      · obtain ⟨w, hw, hclosed⟩ := inbox_of_step hstep hv
        exact hclosed (h.shut q w (hph ▸ hq) hw)
      obtain ⟨hclosed, hbefore⟩ := h.joining next first (hph ▸ ht)
      exact ⟨closed_of_step hclosed hstep, exited_of_step hbefore hstep⟩
    · exact h.aside hstep hshuts (hph ▸ hshuts) hflag

theorem Halts.run (h : s.Halts) (hrun : Run keeps s t) : t.Halts := by
  induction hrun with
  | refl => exact h
  | tail _ hstep ih => exact ih.step hstep

theorem halts_of_ofPlan {config : ClusterConfig} {plan : Plan} {connections : List Connection}
    (h : System.ofPlan config plan connections = .ok s) : s.Halts := by
  obtain ⟨-, -, -, hphase, -⟩ := ofPlan_eq h
  have hflag : s.coordinator.isShutDown = false := by
    obtain ⟨c, hc, h⟩ := ok_of_bind h
    cases h
    obtain ⟨framebuffer, -, hc⟩ := ok_of_bind hc
    cases hc
    rfl
  constructor
  · rw [hphase]
    exact fun hf => hf.elim
  · rw [hphase]
    exact fun _ _ hf => hf.elim
  · rw [hphase]
    exact fun _ _ => Phase.noConfusion
  · rw [hflag]
    exact fun hdown => absurd hdown Bool.false_ne_true

/-! ### Behind a closed barrier -/

/-- From `s` on nobody has heard anything, and no frame has begun. -/
structure Silent (s t : System) : Prop where
  frameIndex : t.coordinator.frameIndex = s.coordinator.frameIndex
  accepted : ∀ p, t.accepted p = s.accepted p

theorem Parting.silent (h : s.Parting) (hclosed : s.pool.barrier.closed) (hstep : Step keeps s t) :
    Silent s t where
  frameIndex := by
    rcases step_cases hstep with ⟨hturn, -⟩ | ⟨-, -, op, -, hbegins⟩ | ⟨-, hbooks, -⟩
    · rcases hturn.pending_cases with ⟨-, hf⟩ | ⟨-, -, -, -, -, hf⟩ | ⟨view, next, live, -, ht, -⟩
      · exact hf
      · exact hf
      · have hrests := (h.steady.step hstep).resting (closed_of_step hclosed hstep)
        rw [ht] at hrests
        exact hrests.elim
    · exact hbegins.frameIndex
    · exact hbooks.frameIndex
  accepted p := by
    cases hr : t.coordinator.proxies[p]? with
    | none =>
      have hs : s.coordinator.proxies[p]? = none := by
        rw [List.getElem?_eq_none_iff] at hr ⊢
        exact hstep.participantCount.symm.trans_le hr
      rw [System.accepted, System.accepted, hr, hs]
    | some r =>
      obtain ⟨q, hq, hqr⟩ := step_proxy h.steady h.exitless hstep hr
      -- the connection was closed before the barrier
      have hdown := h.steady.stopped p (List.getElem?_eq_some_iff.1 hq).1 (.inr hclosed)
      rw [Coordinator.isConnected, hq] at hdown
      rw [System.accepted, System.accepted, hr, hq]
      exact congrArg Sink.accepted (hqr.silent hdown).2

theorem Parting.silent_run (h : s.Parting) (hclosed : s.pool.barrier.closed) (hrun : Run keeps s t) :
    t.pool.barrier.closed ∧ Silent s t := by
  induction hrun with
  | refl => exact ⟨hclosed, rfl, fun _ => rfl⟩
  | tail hrun hstep ih =>
    obtain ⟨hclosed, hframe, haccepted⟩ := ih
    obtain ⟨hframe', haccepted'⟩ := (h.run hrun).silent hclosed hstep
    exact ⟨closed_of_step hclosed hstep, hframe'.trans hframe, fun p =>
      (haccepted' p).trans (haccepted p)⟩

end System

/-! ### The first shutdown -/

/-- How many of the participants a shutdown has told to stop. -/
def Phase.dismissed (count : Nat) : Phase → Nat
  | exiting next _ => next
  | _ => count

namespace System

variable {s t u : System} {keeps : Behaviour} {view : View}

/-- Moves of workers and participants leave the coordinator alone. -/
theorem step_coordinator (h : Step keeps s t) (hne : s.phase ≠ .idle) :
    s.advance = some t ∨ s.expire = some t ∨ t.phase = s.phase ∧ Undisturbed s t := by
  obtain ⟨m, hm, -⟩ := h
  cases m with
  | ask op =>
    rw [move, if_neg hne] at hm
    cases hm
  | coordinator => exact .inl hm
  | timeout => exact .inr (.inl hm)
  | worker q =>
    obtain ⟨pool, -, rfl⟩ := Option.map_eq_some_iff.1 hm
    exact .inr (.inr ⟨rfl, rfl, rfl⟩)
  | deliver q bytes =>
    obtain rfl := deliver_eq hm
    exact .inr (.inr ⟨rfl, rfl, rfl⟩)
  | hangUp q failure =>
    obtain rfl := hangUp_eq hm
    exact .inr (.inr ⟨rfl, rfl, rfl⟩)

/-- A move while a shutdown is under way. -/
theorem step_shutsDown (h : Step keeps s t) (hs : s.phase.ShutsDown) :
    (s.advance = some t ∧ Winds s t) ∨ t.phase = s.phase ∧ Undisturbed s t := by
  have hne : s.phase ≠ .idle := by
    intro hidle
    rw [hidle] at hs
    exact hs
  rcases step_coordinator h hne with hm | hm | haside
  · exact .inl ⟨hm, winds_of_advance hs hm⟩
  · exact absurd hs (not_shutsDown_of_expire hm)
  · exact .inr haside

/-- A state of the first shutdown, which was asked for in `s`. Whoever it has come to was told to stop
once, and nobody else was told anything. -/
structure Dismissing (s t : System) : Prop where
  phase : t.phase.ShutsDown ∧ t.replies = s.replies ∨
    t.phase = .idle ∧ ∃ r, t.replies = s.replies ++ [.done r]
  isShutDown : t.coordinator.isShutDown
  count : t.coordinator.participantCount = s.coordinator.participantCount
  told : ∀ p q, s.coordinator.proxies[p]? = some q →
    p < t.phase.dismissed s.coordinator.participantCount →
      t.coordinator.proxies[p]? = some q.exit.2
  untold : ∀ p q, s.coordinator.proxies[p]? = some q →
    t.phase.dismissed s.coordinator.participantCount ≤ p → t.coordinator.proxies[p]? = some q

theorem dismissing_start (h : s.coordinator.isShutDown = false) :
    Dismissing s (s.start .shutdown) := by
  rw [start, if_neg (by rw [h]; exact Bool.false_ne_true)]
  exact ⟨.inl ⟨trivial, rfl⟩, rfl, rfl, fun p _ _ hp => absurd hp (Nat.not_lt_zero p), fun _ _ hq _ => hq⟩

/-- A move that tells nobody to stop. -/
theorem Dismissing.rest (h : Dismissing s t) (hc : u.coordinator = t.coordinator)
    (hphase : u.phase.ShutsDown ∧ u.replies = s.replies ∨
      u.phase = .idle ∧ ∃ r, u.replies = s.replies ++ [.done r])
    (hall : ∀ p < s.coordinator.participantCount,
      (p < u.phase.dismissed s.coordinator.participantCount ↔
        p < t.phase.dismissed s.coordinator.participantCount)) : Dismissing s u where
  phase := hphase
  isShutDown := by rw [hc, h.isShutDown]
  count := by rw [hc, h.count]
  told p q hq hp := by
    rw [hc]
    exact h.told p q hq ((hall p (List.getElem?_eq_some_iff.1 hq).1).1 hp)
  untold p q hq hp := by
    rw [hc]
    refine h.untold p q hq (Nat.le_of_not_lt fun hlt => ?_)
    exact Nat.not_lt_of_le hp ((hall p (List.getElem?_eq_some_iff.1 hq).1).2 hlt)

theorem Dismissing.winds (h : Dismissing s t) (hr : t.replies = s.replies) (hw : Winds t u) :
    Dismissing s u := by
  -- a turn after which the shutdown is still under way, and that tells nobody to stop
  have hrest : ∀ {f : Phase}, u.phase = f → f.ShutsDown → Undisturbed t u →
      (∀ p < s.coordinator.participantCount, (p < f.dismissed s.coordinator.participantCount ↔
        p < t.phase.dismissed s.coordinator.participantCount)) → Dismissing s u := by
    rintro f rfl hf ⟨hc, hreplies⟩ hall
    exact h.rest hc (.inl ⟨hf, hreplies.trans hr⟩) hall
  cases hw with
  | @exit next first first' ht hlt hu hc hreplies =>
    have htold := h.told
    have huntold := h.untold
    rw [ht] at htold huntold
    constructor
    · rw [hu]
      exact .inl ⟨trivial, hreplies.trans hr⟩
    · rw [hc]
      exact h.isShutDown
    · rw [hc, ← h.count]
      exact List.length_modify ..
    · intro p q hq hp
      rw [hu] at hp
      rw [hc]
      -- the participant whose turn it is, or one before it
      rcases Nat.lt_succ_iff_lt_or_eq.1 hp with hp | rfl
      · rw [List.getElem?_modify_ne _ _ (Nat.ne_of_gt hp)]
        exact htold p q hq hp
      · rw [List.getElem?_modify_eq, huntold p q hq (Nat.le_refl p)]
        rfl
    · intro p q hq hp
      rw [hu] at hp
      rw [hc, List.getElem?_modify_ne _ _ (Nat.ne_of_lt hp)]
      exact huntold p q hq (Nat.le_of_succ_le hp)
  | exited ht hle hu hsame =>
    rw [h.count] at hle
    refine hrest hu trivial hsame fun p hp => ?_
    rw [ht]
    exact ⟨fun _ => Nat.lt_of_lt_of_le hp hle, fun _ => hp⟩
  | close ht _ hu hsame => exact hrest hu trivial hsame fun p _ => by rw [ht]; rfl
  | closed ht _ hu hsame => exact hrest hu trivial hsame fun p _ => by rw [ht]; rfl
  | closeBarrier ht hu hsame => exact hrest hu trivial hsame fun p _ => by rw [ht]; rfl
  | join ht _ _ hu hsame => exact hrest hu trivial hsame fun p _ => by rw [ht]; rfl
  | joined ht _ hu hc hreplies =>
    refine h.rest hc (.inr ⟨hu, _, by rw [hreplies, hr]⟩) fun p _ => ?_
    rw [hu, ht]
    rfl

theorem dismissing_of_within (hs : s.coordinator.isShutDown = false)
    (h : Within keeps (s.start .shutdown) t) : Dismissing s t := by
  induction h with
  | refl => exact dismissing_start hs
  | tail _ hne hstep ih =>
    obtain ⟨hshuts, hr⟩ := ih.phase.resolve_right fun hidle => hne hidle.1
    rcases step_shutsDown hstep hshuts with ⟨-, hw⟩ | ⟨hph, hsame⟩
    · exact ih.winds hr hw
    · refine ih.rest hsame.coordinator (.inl ⟨hph ▸ hshuts, hsame.replies.trans hr⟩) fun p _ => ?_
      rw [hph]

/-- When the first shutdown is over, everybody who was connected was told to stop once. -/
theorem Dismissing.accepted (h : Dismissing s t) (hidle : t.phase = .idle) {p : Nat} {q : Proxy}
    (hq : s.coordinator.proxies[p]? = some q) (hopen : q.isConnected) :
    t.accepted p = (q.sink.putCommand .exit).2.accepted := by
  have htold := h.told p q hq
  rw [hidle] at htold
  rw [System.accepted, htold (List.getElem?_eq_some_iff.1 hq).1, Proxy.exit_of_open hopen]
  rfl

/-! ### Calls that are certain to be answered -/

/-- How many turns of the coordinator are left of a shutdown, or of a frame until nobody is found live. -/
def turnsLeft (s : System) : Nat :=
  let participants := s.coordinator.participantCount
  let workers := s.pool.workers.length
  match s.phase with
  | .reaping _ => s.pool.events.length + participants + 2
  | .surveying _ next _ => participants - next + 1
  | .exiting next _ => participants - next + 2 * workers + 4
  | .closing next _ => workers - next + workers + 3
  | .closingBarrier _ => workers + 2
  | .joining next _ => workers - next + 1
  | _ => 0

/-- A state of a call from `s` that is certain to be answered. Until it is, the coordinator can move on,
or else the barrier is closed and a worker can. A turn of the coordinator brings it nearer to the reply, at
a closed barrier a step of a worker brings the worker nearer to its end, and no move takes anything of
that back. -/
structure Answering (answers : Reply → Prop) (s t : System) : Prop where
  answered : t.phase = .idle → ∃ r, answers r ∧ t.replies = s.replies ++ [r]
  goesOn : t.phase ≠ .idle → (∃ u, t.advance = some u) ∨
    t.pool.barrier.closed ∧ ∃ q, (t.pool.step q).isSome
  turn : ∀ u, t.advance = some u → u.turnsLeft < t.turnsLeft
  turns : t.phase ≠ .idle → ∀ u, Step anything t u → u.turnsLeft ≤ t.turnsLeft
  step : t.pool.barrier.closed → ∀ q pool, t.pool.step q = some pool →
    pool.stepsLeft < t.pool.stepsLeft
  steps : t.pool.barrier.closed → ∀ u, Step anything t u → u.pool.stepsLeft ≤ t.pool.stepsLeft

theorem stepsLeft_of_worker (hclosed : s.pool.barrier.closed) {q : Nat} {pool : Pool}
    (h : s.pool.step q = some pool) : pool.stepsLeft < s.pool.stepsLeft := by
  obtain ⟨w, w', hretires⟩ := Pool.retires_of_step h
  exact hretires.stepsLeft_lt hclosed

theorem stepsLeft_of_step (hclosed : s.pool.barrier.closed) (h : Step keeps s t) :
    t.pool.stepsLeft ≤ s.pool.stepsLeft := by
  rcases step_tends h with htends | ⟨q, pool, hpool, rfl⟩
  · exact (Pool.stepsLeft_of_keeps htends.workers).le
  · exact (stepsLeft_of_worker hclosed hpool).le

/-- A turn of a shutdown is one turn less to take. -/
theorem Winds.turnsLeft_lt (h : Winds s t) (hm : t.pool.workers.length = s.pool.workers.length) :
    t.turnsLeft < s.turnsLeft := by
  unfold turnsLeft
  rw [hm]
  cases h with
  | exit hs hlt ht hc =>
    have hcount : t.coordinator.participantCount = s.coordinator.participantCount := by
      rw [hc]
      exact List.length_modify ..
    simp only [hs, ht, hcount]
    omega
  | exited hs hle ht =>
    simp only [hs, ht]
    omega
  | close hs hlt ht =>
    simp only [hs, ht]
    omega
  | closed hs hle ht | closeBarrier hs ht =>
    simp only [hs, ht]
    omega
  | join hs hget _ ht =>
    have hlt := (List.getElem?_eq_some_iff.1 hget).1
    simp only [hs, ht]
    omega
  | joined hs _ ht =>
    simp only [hs, ht]
    omega

/-- A shutdown that is under way goes on, if not by itself then by a worker that it waits for. -/
theorem Halts.goesOn (h : t.Halts) (hph : t.phase.ShutsDown) : (∃ u, t.advance = some u) ∨
    t.pool.barrier.closed ∧ ∃ q, (t.pool.step q).isSome := by
  cases ht : t.phase with
  | exiting next first =>
    simp only [advance, ht]
    split <;> exact .inl ⟨_, rfl⟩
  | closing next first =>
    simp only [advance, ht]
    split <;> exact .inl ⟨_, rfl⟩
  | closingBarrier first =>
    simp only [advance, ht]
    exact .inl ⟨_, rfl⟩
  | joining next first =>
    obtain ⟨hclosed, -⟩ := h.joining next first ht
    cases hw : t.pool.workers[next]? with
    | none =>
      simp only [advance, ht, hw]
      exact .inl ⟨_, rfl⟩
    | some w =>
      by_cases hexited : w.phase = .exited
      · simp only [advance, ht, hw, if_pos hexited]
        exact .inl ⟨_, rfl⟩
      · have hinbox := h.shut next w (by rw [ht]; trivial) hw
        exact .inr ⟨hclosed, next, Pool.step_isSome_of_closed hw hexited hinbox hclosed⟩
  | _ =>
    rw [ht] at hph
    exact hph.elim

/-- The first shutdown is answered. -/
theorem Dismissing.answering (h : Dismissing s t) (ht : t.Halts) :
    Answering (fun r => ∃ result, r = .done result) s t where
  answered hidle := by
    rcases h.phase with ⟨hshuts, -⟩ | ⟨-, result, hr⟩
    · rw [hidle] at hshuts
      exact hshuts.elim
    · exact ⟨_, ⟨result, rfl⟩, hr⟩
  goesOn hne := ht.goesOn (h.phase.resolve_right fun hidle => hne hidle.1).1
  turn u hu := by
    rcases h.phase with ⟨hshuts, -⟩ | ⟨hidle, -⟩
    · have hstep : Step anything t u := .mk .coordinator hu fun _ _ _ _ _ => trivial
      exact (winds_of_advance hshuts hu).turnsLeft_lt (workers_of_step hstep)
    · simp [advance, hidle] at hu
  turns hne u hstep := by
    obtain ⟨hshuts, -⟩ := h.phase.resolve_right fun hidle => hne hidle.1
    have hm := workers_of_step hstep
    rcases step_shutsDown hstep hshuts with ⟨-, hw⟩ | ⟨hph, hsame⟩
    · exact (hw.turnsLeft_lt hm).le
    · unfold turnsLeft
      rw [hph, hsame.coordinator, hm]
      cases hf : t.phase with
      | reaping =>
        rw [hf] at hshuts
        exact hshuts.elim
      | _ => exact Nat.le_refl _
  step hclosed q pool := stepsLeft_of_worker hclosed
  steps hclosed u := stepsLeft_of_step hclosed

/-! ### Frames that nobody is left for -/

/-- A state of a frame that was asked for in `s`, where nobody is live. -/
inductive Deserted (s : System) (view : View) (t : System) : Prop
  | reaping : t.phase = .reaping view → t.replies = s.replies → Deserted s view t
  | surveying {next : Nat} : t.phase = .surveying view next [] → t.replies = s.replies →
      Deserted s view t
  | refused : t.phase = .idle → t.replies = s.replies ++ [.frame (.error .noParticipants)] →
      Deserted s view t

theorem Deserted.step (h : Deserted s view t) (ht : t.Steady) (hclosed : t.pool.barrier.closed)
    (hstep : Step keeps t u) (hne : t.phase ≠ .idle) : Deserted s view u := by
  rcases step_inside hstep hne with ⟨hturn, -⟩ | ⟨hph, same, -⟩
  · cases h with
    | reaping hs hr =>
      obtain ⟨hu, same⟩ := hturn.of_reaping hs
      rcases hu with hu | hu
      · exact .reaping hu (same.replies.trans hr)
      · exact .surveying hu (same.replies.trans hr)
    | surveying hs hr =>
      rcases hturn.of_surveying hs with ⟨hlt, same, hu⟩ | ⟨-, -, -, hreplies⟩ | ⟨-, hlive, -⟩
      · rcases hu with hu | ⟨hopen, -⟩
        · exact .surveying hu (same.replies.trans hr)
        · rw [ht.stopped _ hlt (.inr hclosed)] at hopen
          cases hopen
      · exact .refused hreplies.phase (by rw [hreplies.replies, hr])
      · exact absurd rfl hlive
    | refused hs => exact absurd hs hne
  · rw [← hph] at hne
    cases h with
    | reaping hs hr => exact .reaping (hph.trans hs) (same.replies.trans hr)
    | surveying hs hr => exact .surveying (hph.trans hs) (same.replies.trans hr)
    | refused hs => exact absurd (hph.trans hs) hne

/-- Every turn of such a frame leaves one turn less to take. -/
theorem Deserted.turnsLeft_lt (h : Deserted s view t) (hu : t.advance = some u) :
    u.turnsLeft < t.turnsLeft := by
  cases h with
  | reaping hs =>
    simp only [advance, hs] at hu
    split at hu
    · rename_i he
      cases hu
      simp only [turnsLeft, hs, he, goTo]
      omega
    · rename_i e rest he
      cases hu
      have hc : Changes (fun _ _ => False) anything t (t.takeReport e rest) := takeReport_changes t e rest
      simp only [turnsLeft, takeReport_phase, takeReport_events, hc.count, hs, he, List.length_cons]
      omega
  | @surveying next hs =>
    simp only [advance, hs] at hu
    split at hu
    · cases hu
      simp only [turnsLeft, hs, goTo]
      omega
    · cases hu
      simp only [turnsLeft, hs, answer]
      omega
  | refused hs => simp [advance, hs] at hu

/-- Nobody is waited for, and nobody reports anything any more. -/
theorem Deserted.answering (h : Deserted s view t) (ht : t.Over) :
    Answering (fun r => r = .frame (.error .noParticipants)) s t where
  answered hidle := by
    cases h with
    | reaping hs | surveying hs => cases hs.symm.trans hidle
    | refused _ hr => exact ⟨_, rfl, hr⟩
  goesOn hne := by
    cases h with
    | reaping hs =>
      simp only [advance, hs]
      split <;> exact .inl ⟨_, rfl⟩
    | surveying hs =>
      simp only [advance, hs]
      split <;> exact .inl ⟨_, rfl⟩
    | refused hs => exact absurd hs hne
  turn u hu := h.turnsLeft_lt hu
  turns hne u hstep := by
    have hexpire : t.expire = none := by
      cases h with
      | reaping hs | surveying hs | refused hs => simp only [expire, hs]
    rcases step_coordinator hstep hne with hm | hm | ⟨hph, hsame⟩
    · exact (h.turnsLeft_lt hm).le
    · rw [hexpire] at hm
      cases hm
    · rcases step_tends hstep with htends | ⟨q, pool, hpool, -⟩
      · cases h with
        | reaping hs =>
          have hreported := htends.reported.length_le
          simp only [reported, hph, hs, Phase.failed, List.nil_append, List.length_map] at hreported
          simp only [turnsLeft, hph, hs, hsame.coordinator]
          omega
        | surveying hs => simp only [turnsLeft, hph, hs, hsame.coordinator, Nat.le_refl]
        | refused hs => exact absurd hs hne
      · obtain ⟨w, -, hw, -⟩ := Pool.retires_of_step hpool
        exact absurd (ht.exited _ q (Nat.lt_succ_self q) w hw) (Pool.not_exited_of_step hpool hw)
  step hclosed q pool := stepsLeft_of_worker hclosed
  steps hclosed u := stepsLeft_of_step hclosed

theorem deserted_of_within (hs : s.Parting) (hover : s.Over) (hidle : s.phase = .idle)
    (h : Within anything (s.start (.render view)) t) : Deserted s view t := by
  induction h with
  | refl => exact .reaping rfl rfl
  | tail hwithin hne hstep ih =>
    have hrun := hwithin.run hidle
    exact ih.step (hs.steady.run hrun) (hover.run hrun).closed hstep hne

/-! ### All runs -/

/-- A shutdown that was asked for stays asked for. -/
theorem isShutDown_of_step (h : s.coordinator.isShutDown) (hstep : Step keeps s t) :
    t.coordinator.isShutDown := by
  rcases step_cases hstep with ⟨hturn, -⟩ | ⟨-, -, op, rfl, -⟩ | ⟨-, hbooks, -⟩
  · rw [hturn.isShutDown]
    exact h
  · obtain ⟨hasked, hflag⟩ := start_shutsDown s op
    by_cases ht : (s.start op).phase.ShutsDown
    · exact (hasked ht).1
    · rw [hflag ht]
      exact h
  · have hsame := congrArg Coordinator.isShutDown hbooks.books
    exact hsame.trans h

theorem isShutDown_of_run (h : s.coordinator.isShutDown) (hrun : Run keeps s t) :
    t.coordinator.isShutDown := by
  induction hrun with
  | refl => exact h
  | tail _ hstep ih => exact isShutDown_of_step ih hstep

/-- The stream of a participant ends with an exit, if there is one. -/
theorem Parting.accepted (h : s.Parting) {p : Nat} (hp : p < s.coordinator.participantCount) :
    ∃ w, s.accepted p = Session.greeting ++ (s.received p).flatMap Command.bytes ++ w ∧
      Unfinished w ∧ (.exit ∈ s.received p → w = [] ∧
        ∃ before, s.received p = before ++ [.exit] ∧ .exit ∉ before) := by
  obtain ⟨q, hq⟩ : ∃ q, s.coordinator.proxies[p]? = some q := ⟨_, List.getElem?_eq_getElem hp⟩
  obtain ⟨cs, w, hcarries, hlast⟩ := h.streams p q hq
  have haccepted : s.accepted p = q.sink.accepted := by
    rw [System.accepted, hq]
  have hreceived : s.received p = cs := by
    rw [System.received, haccepted]
    exact hcarries.received
  rw [haccepted, hreceived]
  exact ⟨w, hcarries.accepted, hcarries.unfinished, fun he => (hlast he).2⟩

/-- Whatever a cluster is asked for and whatever fails, participants that stall or hang up and are
dropped included: no stream holds anything after an exit. The first shutdown is certain to be answered, and
tells everybody that is still connected to stop, once, whatever becomes of the others. After it nobody hears
anything, however the cluster goes on; every frame is certain to be refused because nobody is live, and
none is counted; and every shutdown succeeds at once. -/
theorem shutdown_final {net : Network} {config : ClusterConfig} {preview : Preview} {plan : Plan}
    {connections : List Connection} {s₀ s : System}
    (hfresh : ∀ p a peer, net.dial p a = .ok peer → peer.sink.accepted = [])
    (hsetup : (Setup.run net config preview).outcome = .ok (plan, connections))
    (h₀ : System.ofPlan config plan connections = .ok s₀) (hrun : Run anything s₀ s) :
    (∀ p < s.coordinator.participantCount, ∃ w,
      s.accepted p = Session.greeting ++ (s.received p).flatMap Command.bytes ++ w ∧ Unfinished w ∧
        (.exit ∈ s.received p → w = [] ∧
          ∃ before, s.received p = before ++ [.exit] ∧ .exit ∉ before)) ∧
    (s.phase = .idle → s.coordinator.isShutDown = false →
      ∀ t, Within anything (s.start .shutdown) t → Dismissing s t ∧
        Answering (fun r => ∃ result, r = .done result) s t ∧
        (t.phase = .idle → ∀ p q, s.coordinator.proxies[p]? = some q → q.isConnected →
          t.accepted p = (q.sink.putCommand .exit).2.accepted)) ∧
    (s.phase = .idle → s.coordinator.isShutDown →
      (∀ t, Run anything s t → t.coordinator.isShutDown ∧ Silent s t) ∧
      (∀ view t, Within anything (s.start (.render view)) t →
        Answering (fun r => r = .frame (.error .noParticipants)) s t) ∧
      s.start .shutdown = s.answer (.done (.ok ()))) := by
  have hparting := (parting_of_setup hfresh hsetup h₀).run hrun
  have hhalts := (halts_of_ofPlan h₀).run hrun
  refine ⟨fun p hp => hparting.accepted hp, fun hidle hfirst t ht => ?_, fun hidle hdown => ?_⟩
  · have hdismissing := dismissing_of_within hfirst ht
    exact ⟨hdismissing, hdismissing.answering (hhalts.run (ht.run hidle)), fun hend p q hq hopen =>
      hdismissing.accepted hend hq hopen⟩
  · have hover : s.Over := by
      refine hhalts.ended hdown ?_
      rw [hidle]
      exact id
    refine ⟨fun t ht => ⟨isShutDown_of_run hdown ht, (hparting.silent_run hover.closed ht).2⟩,
      fun view t ht => ?_, ?_⟩
    · exact (deserted_of_within hparting hover hidle ht).answering (hover.run (ht.run hidle))
    · rw [start, if_pos hdown]

end System

namespace Duo

/-- A worker makes so many steps. -/
def steps (p n : Nat) : List (System → Option Move) := List.replicate n fun _ => some (.worker p)

/-- The cluster before any operation, after a frame in which the second participant has hung up, and
after the shutdown that follows. -/
def farewell : Option (System × System × System) := do
  let (plan, connections) ← (Setup.run network config preview).outcome.toOption
  let s₀ ← (System.ofPlan config plan connections).toOption
  guard (s₀.phase = .idle)
  let s ← (s₀.start (.render .default)).follow participants
    ((fun _ => some (.hangUp 1 none)) :: steps 1 5 ++ List.replicate 7 turn ++ arrival 0 ++
      List.replicate 5 turn)
  guard (s.phase = .idle)
  let t ← (s.start .shutdown).follow participants
    (List.replicate 7 turn ++ steps 0 5 ++ List.replicate 3 turn)
  return (s₀, s, t)

end Duo

namespace System

/-- The first participant was told to stop, the second was gone before. Another shutdown succeeds. -/
theorem shutdown_final_lost : ∃ s₀ s t, Duo.farewell = some (s₀, s, t) ∧ Run anything s₀ t ∧
    (∃ before, t.received 0 = before ++ [.exit] ∧ .exit ∉ before) ∧ .exit ∉ t.received 1 ∧
    (∃ q, s.coordinator.proxies[0]? = some q ∧
      t.accepted 0 = (q.sink.putCommand .exit).2.accepted) ∧
    (∀ u, Within anything (t.start (.render .default)) u →
      Answering (fun r => r = .frame (.error .noParticipants)) t u) ∧
    t.start .shutdown = t.answer (.done (.ok ())) := by
  have hfacts : Duo.farewell.map (fun (_, s, t) =>
      ((s.coordinator.isShutDown, s.coordinator.proxies[0]?.map Proxy.isConnected),
        (t.phase, t.coordinator.isShutDown, t.coordinator.participantCount),
        decide (.exit ∈ t.received 0), decide (.exit ∈ t.received 1))) =
      some ((false, some true), (.idle, true, 2), true, false) := by decide +kernel
  obtain ⟨⟨s₀, s, t⟩, hfarewell, hfacts⟩ := Option.map_eq_some_iff.1 hfacts
  simp only [Prod.mk.injEq, decide_eq_true_eq, decide_eq_false_iff_not] at hfacts
  obtain ⟨⟨hfirst, hopen⟩, ⟨hend, hdown, hcount⟩, htold, huntold⟩ := hfacts
  have hruns := hfarewell
  simp only [Duo.farewell, Option.bind_eq_bind, Option.bind_eq_some_iff, Option.guard_eq_some',
    Option.pure_def, Option.some.injEq] at hruns
  obtain ⟨⟨plan, connections⟩, hsetup, _, h₀, -, hidle, _, hframe, -, hidle', _, hshutdown, heq⟩ := hruns
  cases heq
  have hrun : Run anything s₀ s := (follow_within hframe).run hidle
  have hrun' : Run anything s t := (follow_within hshutdown).run hidle'
  have hfresh : ∀ p a peer, Duo.network.dial p a = .ok peer → peer.sink.accepted = [] := by
    intro p a peer hp
    cases hp
    rfl
  obtain ⟨-, hcall, -⟩ :=
    shutdown_final hfresh (ok_of_toOption hsetup) (ok_of_toOption h₀) hrun
  obtain ⟨hstreams, -, hafter⟩ :=
    shutdown_final hfresh (ok_of_toOption hsetup) (ok_of_toOption h₀) (hrun.trans hrun')
  obtain ⟨q, hq, hopen⟩ := Option.map_eq_some_iff.1 hopen
  obtain ⟨-, -, haccepted⟩ := hcall hidle' hfirst t (follow_within hshutdown).weaken
  obtain ⟨w, -, -, hlast⟩ := hstreams 0 (by rw [hcount]; exact Nat.two_pos)
  obtain ⟨-, hrender, hagain⟩ := hafter hend hdown
  exact ⟨s₀, s, t, hfarewell, hrun.trans hrun', (hlast htold).2, huntold,
    ⟨q, hq, haccepted hend 0 q hq hopen⟩, hrender .default, hagain⟩

end System
end SortLast
