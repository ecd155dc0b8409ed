import Mathlib.Data.List.Forall2
import SortLast.Proofs.Cluster.Advance
import SortLast.Proofs.Cluster.Tally

/-!
# Workers at the barrier

While the barrier is open, its counters agree with the phases of the workers and with whether the
coordinator stands at it: a worker takes part until it has exited, and stands at the barrier while it
waits for the current generation. The generation completes only when nobody is absent, so that how many
images a worker has delivered is known from its phase and the generation.

* `WorkerPhase.isAbsent`, `Pool.attending`, `Pool.arrivals`, `Pool.absences`: the roll.
* `Worker.Fits`: what a worker has delivered, by its phase.
* `Pool.Works`: one step of a worker at an open barrier; `Pool.works_of_step`.
* `Pool.Musters`: the invariant; `Pool.Musters.works`, `Pool.Musters.arrive`, `Pool.Musters.withdraw`.
* `Worker.Excused`, `Pool.Musters.step_isSome`: whose worker does not block.
-/

namespace SortLast

/-- True if the worker has not exited and does not wait for generation `g`. -/
def WorkerPhase.isAbsent (g : Nat) : WorkerPhase → Bool
  | exited => false
  | waiting h => h ≠ g
  | _ => true

/-- What a worker has delivered when `g` generations are complete. None stops at an open barrier, and
whoever leaves it has noted its end. -/
def Worker.Fits (w : Worker) (g : Nat) : Prop :=
  match w.phase with
  | .receiving | .storing _ | .failing _ => w.alive ∧ w.delivered = g
  | .arriving => w.alive ∧ w.delivered = g + 1
  | .waiting h => w.alive ∧ w.delivered = h + 1 ∧ (h = g ∨ h + 1 = g)
  | .stopping => False
  | .deciding _ | .announcing _ | .leaving | .exited => w.alive = false

/-- Who has not noted its end has delivered for every generation that is complete. -/
theorem Worker.Fits.le_delivered {w : Worker} {g : Nat} (h : w.Fits g) (ha : w.alive) :
    g ≤ w.delivered := by
  unfold Worker.Fits at h
  cases hph : w.phase with
  | receiving | storing | failing =>
    rw [hph] at h
    exact Nat.le_of_eq h.2.symm
  | arriving =>
    rw [hph] at h
    exact Nat.le_of_succ_le (Nat.le_of_eq h.2.symm)
  | waiting k =>
    rw [hph] at h
    obtain ⟨-, hd, hk⟩ := h
    omega
  | stopping =>
    rw [hph] at h
    exact h.elim
  | deciding | announcing | leaving | exited =>
    rw [hph, ha] at h
    cases h

/-- Who waits when a generation completes has delivered for the next one. -/
theorem Worker.Fits.next {w : Worker} {g : Nat} (h : w.Fits g) (hw : w.phase.isAbsent g = false) :
    w.Fits (g + 1) ∧ w.phase ≠ .waiting (g + 1) := by
  unfold Worker.Fits at h ⊢
  cases hph : w.phase with
  | waiting k =>
    rw [hph] at h hw
    obtain rfl : k = g := by simpa [WorkerPhase.isAbsent] using hw
    exact ⟨⟨h.1, h.2.1, .inr rfl⟩, by simp⟩
  | exited =>
    rw [hph] at h
    exact ⟨h, by simp⟩
  | _ =>
    rw [hph] at hw
    cases hw

theorem Worker.Fits.storing {w : Worker} {g : Nat} {image : Image} (h : w.Fits g)
    (hph : w.phase = .storing image) : w.alive ∧ w.delivered = g := by
  unfold Worker.Fits at h
  rwa [hph] at h

theorem Worker.Fits.arriving {w : Worker} {g : Nat} (h : w.Fits g) (hph : w.phase = .arriving) :
    w.alive ∧ w.delivered = g + 1 := by
  unfold Worker.Fits at h
  rwa [hph] at h

theorem Worker.Fits.leaving {w : Worker} {g : Nat} (h : w.Fits g) (hph : w.phase = .leaving) :
    w.alive = false := by
  unfold Worker.Fits at h
  rwa [hph] at h

/-- Nothing of a worker changes but its connection, which stays closed if it is. -/
structure Worker.Keeps (w v : Worker) : Prop where
  phase : v.phase = w.phase
  delivered : v.delivered = w.delivered
  alive : v.alive = w.alive
  closed : w.inbox.receiver.closed → v.inbox.receiver.closed

theorem Worker.Keeps.fits {w v : Worker} {g : Nat} (h : w.Keeps v) (hw : w.Fits g) : v.Fits g := by
  unfold Worker.Fits
  rw [h.phase, h.delivered, h.alive]
  exact hw

/-- The connection is closed, or the worker has noted its end, or it has delivered for this frame. -/
def Worker.Excused (w : Worker) (frame : Nat) : Prop :=
  w.inbox.receiver.closed ∨ w.alive = false ∨ w.delivered = frame

theorem Worker.Keeps.excused {w v : Worker} {k : Nat} (h : w.Keeps v) (hw : w.Excused k) :
    v.Excused k := by
  unfold Worker.Excused
  rw [h.delivered, h.alive]
  exact hw.imp_left h.closed

theorem Barrier.arrive_open {b : Barrier} (h : b.closed = false) :
    b.arrive = (.returns .leader, b.release) ∨ ∃ b', b.arrive = (.waits b.generation, b') := by
  unfold arrive
  rw [h, if_neg Bool.false_ne_true]
  by_cases hlast : b.parties ≤ b.arrived + 1
  · exact .inl (if_pos hlast)
  · exact .inr ⟨_, if_neg hlast⟩

/-- The wait at an open barrier ends with its generation. -/
theorem Barrier.poll_open {b : Barrier} {g : Nat} {r : WaitResult} (h : b.closed = false)
    (hr : b.poll g = some r) : b.generation ≠ g ∧ r = .follower := by
  unfold poll at hr
  split at hr
  · cases hr
    exact ⟨‹_›, rfl⟩
  · rw [h, if_neg Bool.false_ne_true] at hr
    cases hr

namespace Pool

variable {p p' : Pool} {q g c : Nat} {w v : Worker}

/-- The workers that have not exited. -/
def attending (p : Pool) : Nat := p.workers.countP fun w => w.phase ≠ .exited

/-- The workers that wait for a generation. -/
def arrivals (p : Pool) (g : Nat) : Nat := p.workers.countP fun w => w.phase = .waiting g

/-- The workers that have neither exited nor arrived. -/
def absences (p : Pool) (g : Nat) : Nat := p.workers.countP fun w => w.phase.isAbsent g

/-! ### Calling the roll -/

theorem countP_set_add {α : Type} {P : α → Bool} {l : List α} {a : α} (h : l[q]? = some a) (b : α) :
    (l.set q b).countP P + (P a).toNat = l.countP P + (P b).toNat := by
  obtain ⟨hq, rfl⟩ := List.getElem?_eq_some_iff.1 h
  rw [List.countP_set hq]
  cases hP : P l[q] with
  | true =>
    have := List.countP_pos_iff.2 ⟨l[q], List.getElem_mem hq, hP⟩
    cases P b <;> simp only [Bool.toNat_true, Bool.toNat_false] <;> simp <;> omega
  | false => cases P b <;> simp

theorem put_attending (hq : p.workers[q]? = some w) (v : Worker) :
    (p.put q v).attending + (decide (w.phase ≠ .exited)).toNat =
      p.attending + (decide (v.phase ≠ .exited)).toNat := countP_set_add hq v

theorem put_arrivals (hq : p.workers[q]? = some w) (v : Worker) (g : Nat) :
    (p.put q v).arrivals g + (decide (w.phase = .waiting g)).toNat =
      p.arrivals g + (decide (v.phase = .waiting g)).toNat := countP_set_add hq v

theorem put_absences (hq : p.workers[q]? = some w) (v : Worker) (g : Nat) :
    (p.put q v).absences g + (w.phase.isAbsent g).toNat =
      p.absences g + (v.phase.isAbsent g).toNat := countP_set_add hq v

theorem attending_eq (p : Pool) (g : Nat) : p.attending = p.arrivals g + p.absences g := by
  unfold attending arrivals absences
  induction p.workers with
  | nil => rfl
  | cons w ws ih =>
    rw [List.countP_cons, List.countP_cons, List.countP_cons, ih]
    cases w.phase with
    | waiting h =>
      by_cases hg : h = g
      · simp [hg, WorkerPhase.isAbsent]
        omega
      · simp [hg, WorkerPhase.isAbsent]
        omega
    | _ =>
      simp [WorkerPhase.isAbsent]
      try omega

theorem absences_pos (h : 0 < p.absences g) :
    ∃ (q : Nat) (w : Worker), p.workers[q]? = some w ∧ w.phase.isAbsent g := by
  obtain ⟨w, hw, habsent⟩ := List.countP_pos_iff.1 h
  obtain ⟨q, hq⟩ := List.mem_iff_getElem?.1 hw
  exact ⟨q, w, hq, habsent⟩

/-- If one worker is absent, no other is. -/
theorem isAbsent_of_ne (hq : p.workers[q]? = some w) (hw : w.phase.isAbsent g)
    (hone : p.absences g = 1) {r : Nat} (hr : r ≠ q) (hv : p.workers[r]? = some v) :
    v.phase.isAbsent g = false := by
  -- if that one exits, nobody is absent
  have hexit := put_absences hq { w with phase := .exited } g
  have hnone : (p.put q { w with phase := .exited }).absences g = 0 := by
    rw [hone, hw] at hexit
    exact Nat.succ.inj hexit
  have hmem : v ∈ (p.put q { w with phase := .exited }).workers := by
    refine List.mem_of_getElem? (i := r) ?_
    rw [put, List.getElem?_set_ne (Ne.symm hr)]
    exact hv
  exact Bool.not_eq_true _ ▸ List.countP_eq_zero.1 hnone v hmem

/-! ### One step of a worker -/

/-- One step of worker `w` of participant `q` at an open barrier. -/
inductive Works (p : Pool) (q : Nat) (w : Worker) : Pool → Prop
  /-- A step from one phase away from the barrier to another. -/
  | pass (v : Worker) (events : List WorkerEvent) : w.phase.isAbsent p.barrier.generation →
      v.phase.isAbsent p.barrier.generation → v.Fits p.barrier.generation →
      v.delivered = w.delivered → (v.alive → w.alive) →
      (w.inbox.receiver.closed → v.inbox.receiver.closed) →
      Works p q w ({ p with events }.put q v)
  | store {image : Image} : w.phase = .storing image →
      Works p q w ({ p with slots := p.slots.store q (w.delivered + 1) image }.put q
        { w with delivered := w.delivered + 1, phase := .arriving })
  | lead {b : Barrier} : w.phase = .arriving → p.barrier.arrive = (.returns .leader, b) →
      Works p q w ({ p with barrier := b }.put q { w with phase := .receiving })
  | join {b : Barrier} : w.phase = .arriving → p.barrier.arrive = (.waits p.barrier.generation, b) →
      Works p q w ({ p with barrier := b }.put q { w with phase := .waiting p.barrier.generation })
  | leave : w.phase = .leaving →
      Works p q w ({ p with barrier := p.barrier.leave }.put q { w with phase := .exited })

theorem receive?_closed {b inbox : Inbox} {r : Except NetError Image}
    (h : b.receive? = some (r, inbox)) (hclosed : b.receiver.closed) : inbox.receiver.closed := by
  unfold Inbox.receive? at h
  split at h
  · cases h
    show (Receiver.image _).2.closed = true
    unfold Receiver.image Receiver.accept
    split <;> exact hclosed
  · cases h

theorem works_of_step (hopen : p.barrier.closed = false) (hq : p.workers[q]? = some w)
    (hfits : w.Fits p.barrier.generation) (h : p.step q = some p') : p.Works q w p' := by
  obtain ⟨w', hw', hacts⟩ := acts_of_step h
  obtain rfl : w' = w := Option.some.inj (hw'.symm.trans hq)
  have hpass := Works.pass (p := p) (q := q) (w := w')
  unfold Worker.Fits at hfits
  cases hacts with
  | @receive image inbox hph hr =>
    rw [hph] at hfits hpass
    exact hpass { w' with inbox, phase := .storing image } p.events rfl rfl hfits rfl id
      (receive?_closed hr)
  | @fail e inbox hph hr =>
    rw [hph] at hfits hpass
    exact hpass { w' with inbox, phase := .failing e } p.events rfl rfl hfits rfl id
      (receive?_closed hr)
  | store hph => exact .store hph
  | lead hph harrive =>
    rcases Barrier.arrive_open hopen with hopen | ⟨_, hopen⟩ <;> cases harrive.symm.trans hopen
    exact .lead hph harrive
  | join hph harrive =>
    rcases Barrier.arrive_open hopen with hopen | ⟨_, hopen⟩ <;> cases harrive.symm.trans hopen
    exact .join hph harrive
  | @wake g r hph hr =>
    rw [hph] at hfits hpass
    have hg : p.barrier.generation ≠ g := (Barrier.poll_open hopen hr).1
    have hdelivered : w'.delivered = p.barrier.generation := by
      rcases hfits.2.2 with hcurrent | hpast
      · exact absurd hcurrent.symm hg
      · exact hfits.2.1.trans hpast
    exact hpass { w' with phase := .receiving } p.events (decide_eq_true (Ne.symm hg)) rfl
      ⟨hfits.1, hdelivered⟩ rfl id id
  -- an open barrier turns nobody away
  | refuse _ harrive =>
    rcases Barrier.arrive_open hopen with hopen | ⟨_, hopen⟩ <;> cases harrive.symm.trans hopen
  | dismiss _ hr => cases (Barrier.poll_open hopen hr).2
  | note hph =>
    rw [hph] at hpass
    exact hpass { w' with alive := false, phase := .deciding _ } p.events rfl rfl rfl rfl
      (fun halive => absurd halive Bool.false_ne_true) id
  | @decide e hph =>
    rw [hph] at hfits hpass
    by_cases hstop : p.stopping
    · simp only [hstop, if_true]
      exact hpass { w' with phase := .leaving } p.events rfl rfl hfits rfl id id
    · simp only [hstop]
      exact hpass { w' with phase := .announcing e } p.events rfl rfl hfits rfl id id
  | announce hph =>
    rw [hph] at hfits hpass
    exact hpass { w' with phase := .leaving } _ rfl rfl hfits rfl id id
  | leave hph => exact .leave hph
  | stop hph =>
    rw [hph] at hfits
    exact hfits.elim

/-! ### The invariant -/

/-- The open barrier agrees with the workers and with `c`, the number of standing arrivals of the
coordinator. -/
structure Musters (p : Pool) (c : Nat) : Prop where
  tallies : p.barrier.Tallies (p.attending + 1) (p.arrivals p.barrier.generation + c)
  single : c ≤ 1
  fits : ∀ (q : Nat) (w : Worker), p.workers[q]? = some w → w.Fits p.barrier.generation
  slots : ∀ (q : Nat) (w : Worker), p.workers[q]? = some w →
    ∀ e, p.slots.get q = some e → e.frame = w.delivered

theorem forall_put {R : Nat → Worker → Prop}
    (h : ∀ r u, r ≠ q → p.workers[r]? = some u → R r u) (hv : R q v) :
    ∀ r u, (p.put q v).workers[r]? = some u → R r u := by
  intro r u hr
  by_cases hrq : r = q
  · subst hrq
    rw [put, List.getElem?_set_self'] at hr
    obtain ⟨_, -, rfl⟩ := Option.map_eq_some_iff.1 hr
    exact hv
  · rw [put, List.getElem?_set_ne (Ne.symm hrq)] at hr
    exact h r u hrq hr

theorem arrivals_eq_zero (h : ∀ (r : Nat) (u : Worker), p.workers[r]? = some u → u.phase ≠ .waiting g) :
    p.arrivals g = 0 := by
  refine List.countP_eq_zero.2 fun u hu => ?_
  obtain ⟨r, hr⟩ := List.mem_iff_getElem?.1 hu
  simpa using h r u hr

/-- Nobody but the coordinator and this worker is missing, at the most. -/
theorem Musters.lt_of_absent (h : p.Musters c) (hq : p.workers[q]? = some w)
    (hw : w.phase.isAbsent p.barrier.generation) :
    p.arrivals p.barrier.generation + c < p.attending + 1 ∧
      (p.arrivals p.barrier.generation + c + 1 = p.attending + 1 →
        c = 1 ∧ p.absences p.barrier.generation = 1) := by
  have hpos : 0 < p.absences p.barrier.generation :=
    List.countP_pos_iff.2 ⟨w, List.mem_of_getElem? hq, hw⟩
  have hsum := p.attending_eq p.barrier.generation
  have hsingle := h.single
  omega

theorem Musters.slots_put (h : p.Musters c) (hq : p.workers[q]? = some w)
    (hdelivered : v.delivered = w.delivered) (r : Nat) (u : Worker)
    (hu : (p.put q v).workers[r]? = some u) : ∀ e, p.slots.get r = some e → e.frame = u.delivered := by
  refine forall_put (p := p) (R := fun r u => ∀ e, p.slots.get r = some e → e.frame = u.delivered)
    (fun r u _ => h.slots r u) ?_ r u hu
  rw [hdelivered]
  exact h.slots q w hq

/-- The step of one worker completes the generation, while everybody else is at the barrier. -/
theorem Musters.complete (h : p.Musters c) (hq : p.workers[q]? = some w)
    (hw : w.phase.isAbsent p.barrier.generation) (hone : p.absences p.barrier.generation = 1)
    (hv : v.Fits (p.barrier.generation + 1)) (hwait : v.phase ≠ .waiting (p.barrier.generation + 1))
    (hdelivered : v.delivered = w.delivered) {b : Barrier}
    (hb : b.generation = p.barrier.generation + 1)
    (htallies : b.Tallies ((p.put q v).attending + 1) 0) :
    ({ p with barrier := b }.put q v).Musters 0 := by
  have hnext : ∀ (r : Nat) (u : Worker), r ≠ q → p.workers[r]? = some u →
      u.Fits (p.barrier.generation + 1) ∧ u.phase ≠ .waiting (p.barrier.generation + 1) :=
    fun r u hr hu => (h.fits r u hu).next (isAbsent_of_ne hq hw hone hr hu)
  refine ⟨?_, Nat.zero_le 1, ?_, ?_⟩
  · show b.Tallies _ ((p.put q v).arrivals b.generation + 0)
    rw [hb, arrivals_eq_zero (forall_put (fun r u hr hu => (hnext r u hr hu).2) hwait)]
    exact htallies
  · show ∀ (r : Nat) (u : Worker), (p.put q v).workers[r]? = some u → u.Fits b.generation
    rw [hb]
    exact forall_put (fun r u hr hu => (hnext r u hr hu).1) hv
  · exact h.slots_put hq hdelivered

/-- A step away from the barrier changes neither count. -/
theorem Musters.away (h : p.Musters c) (hq : p.workers[q]? = some w)
    (hw : w.phase.isAbsent p.barrier.generation) (hv : v.phase.isAbsent p.barrier.generation) :
    p.barrier.Tallies ((p.put q v).attending + 1) ((p.put q v).arrivals p.barrier.generation + c) := by
  have hphase : ∀ f : WorkerPhase, f.isAbsent p.barrier.generation →
      decide (f ≠ .exited) = true ∧ decide (f = .waiting p.barrier.generation) = false := by
    intro f hf
    cases f with
    | exited => cases hf
    | waiting k =>
      refine ⟨by simp, decide_eq_false fun he => ?_⟩
      cases he
      simp [WorkerPhase.isAbsent] at hf
    | _ => exact ⟨by simp, by simp⟩
  have hattending := put_attending hq v
  have harrivals := put_arrivals hq v p.barrier.generation
  rw [(hphase _ hw).1, (hphase _ hv).1] at hattending
  rw [(hphase _ hw).2, (hphase _ hv).2] at harrivals
  rw [Nat.add_right_cancel hattending, Nat.add_right_cancel harrivals]
  exact h.tallies

/-- A step of a worker keeps the agreement. If it completes the generation, then the coordinator was
standing, and is not any more. -/
theorem Musters.works (h : p.Musters c) (hq : p.workers[q]? = some w) (hw : p.Works q w p') :
    (p'.Musters c ∧ p'.barrier.generation = p.barrier.generation) ∨
      (c = 1 ∧ p'.Musters 0 ∧ p'.barrier.generation = p.barrier.generation + 1) := by
  cases hw with
  | pass v events habsent hv hfits hdelivered =>
    exact .inl ⟨⟨h.away hq habsent hv, h.single, forall_put (p := p) (fun r u _ => h.fits r u) hfits,
      h.slots_put hq hdelivered⟩, rfl⟩
  | @store image hph =>
    have hfits := (h.fits q w hq).storing hph
    refine .inl ⟨⟨h.away hq (by rw [hph]; rfl) rfl, h.single, ?_, ?_⟩, rfl⟩
    · exact forall_put (p := p) (fun r u _ => h.fits r u) ⟨hfits.1, congrArg (· + 1) hfits.2⟩
    · refine forall_put (p := p) (R := fun r u => ∀ e,
        (p.slots.store q (w.delivered + 1) image).get r = some e → e.frame = u.delivered) ?_ ?_
      · intro r u hr hu e he
        rw [Slots.get, Slots.store, List.getElem?_set_ne (Ne.symm hr)] at he
        exact h.slots r u hu e he
      · intro e he
        rw [Slots.get, Slots.store, List.getElem?_set_self'] at he
        cases hslot : p.slots.entries[q]? with
        | none =>
          rw [hslot] at he
          cases he
        | some old =>
          rw [hslot] at he
          cases he
          rfl
  | @lead b hph harrive =>
    have habsent : w.phase.isAbsent p.barrier.generation := by rw [hph]; rfl
    obtain ⟨hlt, hlast⟩ := h.lt_of_absent hq habsent
    have hfits := (h.fits q w hq).arriving hph
    rcases h.tallies.arrive hlt with ⟨hcard, hb⟩ | ⟨-, b', hb, -⟩
    · obtain ⟨rfl, hone⟩ := hlast hcard
      obtain rfl : b = p.barrier.release := congrArg Prod.snd (harrive.symm.trans hb)
      refine .inr ⟨rfl, h.complete (v := { w with phase := .receiving }) hq habsent hone hfits
        (by simp) rfl rfl ?_, rfl⟩
      have hattending := put_attending hq { w with phase := .receiving }
      rw [hph] at hattending
      rw [Nat.add_right_cancel hattending]
      exact h.tallies.release
    · cases harrive.symm.trans hb
  | @join b hph harrive =>
    have habsent : w.phase.isAbsent p.barrier.generation := by rw [hph]; rfl
    obtain ⟨hlt, -⟩ := h.lt_of_absent hq habsent
    have hfits := (h.fits q w hq).arriving hph
    rcases h.tallies.arrive hlt with ⟨-, hb⟩ | ⟨-, b', hb, hgeneration, htallies⟩
    · cases harrive.symm.trans hb
    · obtain rfl : b = b' := congrArg Prod.snd (harrive.symm.trans hb)
      refine .inl ⟨⟨?_, h.single, ?_, h.slots_put hq rfl⟩, hgeneration⟩
      · have hattending := put_attending hq { w with phase := .waiting p.barrier.generation }
        have harrivals :=
          put_arrivals hq { w with phase := .waiting p.barrier.generation } p.barrier.generation
        rw [hph] at hattending harrivals
        show b.Tallies ((p.put q _).attending + 1) ((p.put q _).arrivals b.generation + c)
        rw [hgeneration, Nat.add_right_cancel hattending]
        have hone : (p.put q { w with phase := .waiting p.barrier.generation }).arrivals
            p.barrier.generation = p.arrivals p.barrier.generation + 1 := by
          simpa using harrivals
        rw [hone, Nat.add_right_comm]
        exact htallies
      · show ∀ (r : Nat) (u : Worker), (p.put q _).workers[r]? = some u → u.Fits b.generation
        rw [hgeneration]
        exact forall_put (fun r u _ => h.fits r u) ⟨hfits.1, hfits.2, .inl rfl⟩
  | leave hph =>
    have habsent : w.phase.isAbsent p.barrier.generation := by rw [hph]; rfl
    obtain ⟨hlt, hlast⟩ := h.lt_of_absent hq habsent
    have hdead := (h.fits q w hq).leaving hph
    have hattending : (p.put q { w with phase := .exited }).attending + 1 = p.attending := by
      have hput := put_attending hq { w with phase := .exited }
      rw [hph] at hput
      simpa using hput
    have harrivals : (p.put q { w with phase := .exited }).arrivals p.barrier.generation =
        p.arrivals p.barrier.generation := by
      have hput := put_arrivals hq { w with phase := .exited } p.barrier.generation
      rw [hph] at hput
      simpa using hput
    rcases h.tallies.leave hlt with ⟨-, hcard, hb, htallies⟩ | ⟨hb, htallies⟩
    · obtain ⟨rfl, hone⟩ := hlast hcard
      refine .inr ⟨rfl, h.complete (v := { w with phase := .exited }) hq habsent hone hdead
        (by simp) rfl hb ?_, hb⟩
      rw [hattending]
      exact htallies
    · refine .inl ⟨⟨?_, h.single, ?_, h.slots_put hq rfl⟩, hb⟩
      · show p.barrier.leave.Tallies ((p.put q _).attending + 1)
          ((p.put q _).arrivals p.barrier.leave.generation + c)
        rw [hb, hattending, harrivals]
        exact htallies
      · show ∀ (r : Nat) (u : Worker), (p.put q _).workers[r]? = some u →
          u.Fits p.barrier.leave.generation
        rw [hb]
        exact forall_put (fun r u _ => h.fits r u) hdead

/-! ### The coordinator at the barrier -/

/-- The arrival of the coordinator completes the generation if nobody is absent. -/
theorem Musters.arrive (h : p.Musters 0) :
    (p.barrier.arrive = (.returns .leader, p.barrier.release) ∧
      { p with barrier := p.barrier.release }.Musters 0) ∨
    ∃ b, p.barrier.arrive = (.waits p.barrier.generation, b) ∧
      b.generation = p.barrier.generation ∧ { p with barrier := b }.Musters 1 := by
  have hsum := p.attending_eq p.barrier.generation
  rcases h.tallies.arrive (by omega) with ⟨hcard, hb⟩ | ⟨-, b, hb, hgeneration, htallies⟩
  · have hnone : p.absences p.barrier.generation = 0 := by omega
    have hnext : ∀ (r : Nat) (u : Worker), p.workers[r]? = some u →
        u.Fits (p.barrier.generation + 1) ∧ u.phase ≠ .waiting (p.barrier.generation + 1) :=
      fun r u hu => (h.fits r u hu).next
        (Bool.not_eq_true _ ▸ List.countP_eq_zero.1 hnone u (List.mem_of_getElem? hu))
    refine .inl ⟨hb, ?_, Nat.zero_le 1, fun r u hu => (hnext r u hu).1, h.slots⟩
    show p.barrier.release.Tallies (p.attending + 1) (p.arrivals (p.barrier.generation + 1) + 0)
    rw [arrivals_eq_zero fun r u hu => (hnext r u hu).2]
    exact h.tallies.release
  · refine .inr ⟨b, hb, hgeneration, ?_, Nat.le_refl 1, ?_, h.slots⟩
    · show b.Tallies (p.attending + 1) (p.arrivals b.generation + 1)
      rw [hgeneration]
      exact htallies
    · show ∀ (r : Nat) (u : Worker), p.workers[r]? = some u → u.Fits b.generation
      rw [hgeneration]
      exact h.fits

/-- The coordinator takes its arrival back. -/
theorem Musters.withdraw (h : p.Musters 1) : { p with barrier := p.barrier.withdraw }.Musters 0 :=
  ⟨h.tallies.expire_current.2, Nat.zero_le 1, h.fits, h.slots⟩

/-! ### Connections -/

/-- The same worker before, where of the workers only connections have changed. -/
theorem exists_keeps {ws vs : List Worker} (h : List.Forall₂ Worker.Keeps ws vs)
    (hv : vs[q]? = some v) : ∃ w, ws[q]? = some w ∧ w.Keeps v := by
  obtain ⟨hlength, hkeeps⟩ := List.forall₂_iff_get.1 h
  obtain ⟨hq, rfl⟩ := List.getElem?_eq_some_iff.1 hv
  have hq' : q < ws.length := by rwa [hlength]
  exact ⟨_, List.getElem?_eq_getElem hq', hkeeps q hq' hq⟩

/-- Nothing changes at the barrier, and of the workers only their connections. -/
structure Keeps (p p' : Pool) : Prop where
  barrier : p'.barrier = p.barrier
  slots : p'.slots = p.slots
  workers : List.Forall₂ Worker.Keeps p.workers p'.workers

theorem Keeps.getElem? (h : p.Keeps p') (hv : p'.workers[q]? = some v) :
    ∃ w, p.workers[q]? = some w ∧ w.Keeps v := exists_keeps h.workers hv

/-- What is counted by phase stays. -/
theorem Keeps.countP (h : p.Keeps p') (P : WorkerPhase → Bool) :
    (p'.workers.countP fun w => P w.phase) = p.workers.countP fun w => P w.phase := by
  have hworkers := h.workers
  revert hworkers
  generalize p.workers = ws, p'.workers = vs
  intro hworkers
  induction hworkers with
  | nil => rfl
  | cons hw _ ih => rw [List.countP_cons, List.countP_cons, ih, hw.phase]

theorem Musters.keeps (h : p.Musters c) (hk : p.Keeps p') : p'.Musters c where
  tallies := by
    have hattending : p'.attending = p.attending := hk.countP fun f => f ≠ .exited
    have harrivals := hk.countP fun f => f = .waiting p.barrier.generation
    rw [hk.barrier, hattending, show p'.arrivals _ = p.arrivals _ from harrivals]
    exact h.tallies
  single := h.single
  fits q v hv := by
    obtain ⟨w, hw, hkeeps⟩ := hk.getElem? hv
    rw [hk.barrier]
    exact hkeeps.fits (h.fits q w hw)
  slots q v hv := by
    obtain ⟨w, hw, hkeeps⟩ := hk.getElem? hv
    rw [hk.slots, hkeeps.delivered]
    exact h.slots q w hw

theorem Keeps.refl (p : Pool) : p.Keeps p :=
  ⟨rfl, rfl, List.forall₂_same.2 fun _ _ => ⟨rfl, rfl, rfl, id⟩⟩

/-- Something happens to one connection, and reports of failures may be taken. -/
theorem keeps_modify (p : Pool) (q : Nat) {f : Inbox → Inbox} (events : List WorkerEvent)
    (hf : ∀ b, b.receiver.closed → (f b).receiver.closed) :
    p.Keeps { p with
      events, workers := p.workers.modify q fun w => { w with inbox := f w.inbox } } := by
  refine ⟨rfl, rfl, List.forall₂_iff_get.2 ⟨(List.length_modify ..).symm, fun r hr hr' => ?_⟩⟩
  simp only [List.get_eq_getElem, List.getElem_modify]
  split
  · exact ⟨rfl, rfl, rfl, hf _⟩
  · exact ⟨rfl, rfl, rfl, id⟩

/-! ### Who does not block -/

/-- While the generation lasts, a step of a worker leaves everybody excused who is. -/
theorem Musters.excused (h : p.Musters c) (hq : p.workers[q]? = some w) (hw : p.Works q w p') {r : Nat}
    {u : Worker} (hu : p'.workers[r]? = some u) :
    ∃ u₀, p.workers[r]? = some u₀ ∧
      (u₀.Excused (p.barrier.generation + 1) → u.Excused (p.barrier.generation + 1)) := by
  -- only the worker that moves can have changed
  have hput : ∀ v : Worker, (w.Excused (p.barrier.generation + 1) → v.Excused (p.barrier.generation + 1)) →
      (p.put q v).workers[r]? = some u → ∃ u₀, p.workers[r]? = some u₀ ∧
        (u₀.Excused (p.barrier.generation + 1) → u.Excused (p.barrier.generation + 1)) := by
    intro v hv hr
    exact forall_put (p := p) (R := fun r u => ∃ u₀, p.workers[r]? = some u₀ ∧
      (u₀.Excused (p.barrier.generation + 1) → u.Excused (p.barrier.generation + 1)))
      (fun r u _ hu => ⟨u, hu, id⟩) ⟨w, hq, hv⟩ r u hr
  cases hw with
  | pass v events _ _ _ hdelivered halive hclosed =>
    refine hput v (fun hexcused => ?_) hu
    rcases hexcused with hc | ha | hd
    · exact .inl (hclosed hc)
    · exact .inr (.inl (Bool.eq_false_iff.2 fun hv => by simp [halive hv] at ha))
    · exact .inr (.inr (hdelivered.trans hd))
  | store hph =>
    have hfits := (h.fits q w hq).storing hph
    exact hput _ (fun _ => .inr (.inr (congrArg (· + 1) hfits.2))) hu
  | lead => exact hput { w with phase := .receiving } id hu
  | join => exact hput { w with phase := .waiting p.barrier.generation } id hu
  | leave => exact hput { w with phase := .exited } id hu

/-- A worker that is excused in an incomplete generation has exited or waits for it, or can move: in
particular it does not have to wait for its participant. -/
theorem Musters.step_isSome (h : p.Musters c) (hq : p.workers[q]? = some w)
    (hw : w.Excused (p.barrier.generation + 1)) :
    w.phase = .exited ∨ w.phase = .waiting p.barrier.generation ∨
      ((p.step q).isSome ∧ (w.phase = .receiving → w.inbox.receiver.closed)) := by
  have hfits := h.fits q w hq
  unfold Worker.Fits at hfits
  unfold step
  rw [hq]
  simp only [stepOf]
  cases hph : w.phase with
  | receiving =>
    rw [hph] at hfits
    -- it has not delivered for the frame, so its connection is closed and reading does not block
    have hclosed : w.inbox.receiver.closed := by
      rcases hw with hc | ha | hd
      · exact hc
      · rw [hfits.1] at ha
        cases ha
      · rw [hfits.2] at hd
        exact absurd hd (Nat.ne_of_lt (Nat.lt_succ_self _))
    refine .inr (.inr ⟨?_, fun _ => hclosed⟩)
    have hready : w.inbox.isReady := by simp [Inbox.isReady, hclosed]
    simp only [Inbox.receive?, hready, if_true]
    cases w.inbox.receiver.image with
    | mk result receiver => cases result <;> rfl
  | waiting k =>
    by_cases hk : k = p.barrier.generation
    · exact .inr (.inl (by rw [hk]))
    · refine .inr (.inr ⟨?_, fun hreceiving => by cases hreceiving⟩)
      simp [Barrier.poll, Ne.symm hk]
  | exited => exact .inl rfl
  | _ => exact .inr (.inr ⟨rfl, fun hreceiving => by cases hreceiving⟩)

/-! ### The beginning -/

theorem musters_ofInboxes (inboxes : List Inbox) : (ofInboxes inboxes).Musters 0 := by
  have hworker : ∀ (q : Nat) (w : Worker), (ofInboxes inboxes).workers[q]? = some w →
      ∃ inbox, w = { inbox } := by
    intro q w hw
    rw [ofInboxes, List.getElem?_map] at hw
    obtain ⟨inbox, -, rfl⟩ := Option.map_eq_some_iff.1 hw
    exact ⟨inbox, rfl⟩
  refine ⟨?_, Nat.zero_le 1, ?_, ?_⟩
  · have hattending : (ofInboxes inboxes).attending = inboxes.length := by
      rw [attending, ofInboxes, List.countP_map]
      exact List.countP_eq_length.2 fun _ _ => rfl
    have harrivals : (ofInboxes inboxes).arrivals 0 = 0 := by
      refine arrivals_eq_zero fun r u hr => ?_
      obtain ⟨inbox, rfl⟩ := hworker r u hr
      exact WorkerPhase.noConfusion
    show (ofInboxes inboxes).barrier.Tallies _ ((ofInboxes inboxes).arrivals 0 + 0)
    rw [hattending, harrivals]
    exact Barrier.Tallies.start _
  · intro q w hw
    obtain ⟨inbox, rfl⟩ := hworker q w hw
    exact ⟨rfl, rfl⟩
  · intro q w _ e he
    rw [Slots.get, ofInboxes, Slots.ofCount, List.getElem?_replicate] at he
    split at he <;> cases he

end Pool
end SortLast
