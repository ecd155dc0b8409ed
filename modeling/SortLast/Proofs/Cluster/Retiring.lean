import SortLast.Proofs.Cluster.Reports

/-!
# Workers at a closed barrier

A worker that has exited does not move any more. At a closed barrier every other worker is on its way out,
and if its connection is closed as well it does not have to wait for anything.

* `Pool.Exited`: workers that have exited; `Pool.Exited.step`, `Pool.Exited.keeps`.
* `WorkerPhase.stepsLeft`, `Pool.stepsLeft`: how far workers are from their ends.
* `Pool.Retires`: what a step of a worker does to that; `Pool.retires_of_step`.
* `Pool.step_isSome_of_closed`: whose worker does not block.
-/

namespace SortLast

/-- The steps that a worker takes at most until it has exited, when the barrier is closed. -/
def WorkerPhase.stepsLeft : WorkerPhase → Nat
  | waiting _ => 6
  | receiving => 5
  | failing _ => 4
  | storing _ | deciding _ => 3
  | arriving | announcing _ => 2
  | leaving | stopping => 1
  | exited => 0

namespace Pool

variable {pool pool' : Pool} {n q : Nat} {w : Worker}

/-! ### Workers that have exited -/

/-- The workers before number `n` have exited. -/
def Exited (pool : Pool) (n : Nat) : Prop :=
  ∀ q < n, ∀ w, pool.workers[q]? = some w → w.phase = .exited

theorem not_exited_of_step (h : pool.step q = some pool') (hw : pool.workers[q]? = some w) :
    w.phase ≠ .exited := by
  intro hexited
  simp [step, stepOf, hw, hexited] at h

theorem Exited.step (h : pool.Exited n) (hstep : pool.step q = some pool') : pool'.Exited n := by
  obtain ⟨w, w', stored, hw, hstepped⟩ := step_spec hstep
  intro r hr v hv
  have hne : q ≠ r := by
    rintro rfl
    exact not_exited_of_step hstep hw (h q hr w hw)
  rw [hstepped.workers, List.getElem?_set_ne hne] at hv
  exact h r hr v hv

theorem Exited.keeps (h : pool.Exited n)
    (hkeeps : List.Forall₂ Worker.Keeps pool.workers pool'.workers) : pool'.Exited n := by
  intro r hr v hv
  obtain ⟨w, hw, hwv⟩ := exists_keeps hkeeps hv
  rw [hwv.phase]
  exact h r hr w hw

/-! ### On the way out -/

/-- The steps that all workers take at most until they have exited, when the barrier is closed. -/
def stepsLeft (pool : Pool) : Nat := (pool.workers.map fun w => w.phase.stepsLeft).sum

/-- One step of a worker. At a closed barrier it brings the worker nearer to its end, and a closed
connection stays closed. -/
structure Retires (q : Nat) (w w' : Worker) (pool pool' : Pool) : Prop where
  before : pool.workers[q]? = some w
  workers : pool'.workers = pool.workers.set q w'
  nearer : pool.barrier.closed → w'.phase.stepsLeft < w.phase.stepsLeft
  closed : w.inbox.receiver.closed → w'.inbox.receiver.closed

theorem retires_of_step (h : pool.step q = some pool') : ∃ w w', Retires q w w' pool pool' := by
  obtain ⟨w, hw, hacts⟩ := acts_of_step h
  refine ⟨w, ?_⟩
  cases hacts with
  | receive hph hr | fail hph hr =>
    exact ⟨_, hw, rfl, fun _ => by simp [hph, WorkerPhase.stepsLeft], receive?_closed hr⟩
  -- a closed barrier lets nobody in
  | lead hph harrive hgood =>
    refine ⟨_, hw, rfl, fun hclosed => ?_, id⟩
    rw [Barrier.arrive, if_pos hclosed] at harrive
    cases harrive
    exact absurd rfl (hgood _)
  | join hph harrive =>
    refine ⟨_, hw, rfl, fun hclosed => ?_, id⟩
    rw [Barrier.arrive, if_pos hclosed] at harrive
    cases harrive
  | decide hph =>
    refine ⟨_, hw, rfl, fun _ => ?_, id⟩
    cases pool.stopping <;> simp [hph, WorkerPhase.stepsLeft]
  | store hph | refuse hph | wake hph | dismiss hph | note hph | announce hph | leave hph | stop hph =>
    exact ⟨_, hw, rfl, fun _ => by simp [hph, WorkerPhase.stepsLeft], id⟩

/-- A worker that has not exited moves on if neither its connection nor the barrier is open. -/
theorem step_isSome_of_closed (hw : pool.workers[q]? = some w) (hne : w.phase ≠ .exited)
    (hclosed : w.inbox.receiver.closed) (hbarrier : pool.barrier.closed) : (pool.step q).isSome := by
  unfold step stepOf
  rw [hw]
  simp only
  cases hph : w.phase with
  | receiving =>
    have hready : w.inbox.isReady := by simp [Inbox.isReady, hclosed]
    simp only [Inbox.receive?, hready, if_true]
    cases w.inbox.receiver.image with
    | mk result receiver => cases result <;> rfl
  | waiting g =>
    by_cases hg : pool.barrier.generation = g
    · simp [Barrier.poll, hg, hbarrier]
    · simp [Barrier.poll, hg]
  | exited => exact absurd hph hne
  | _ => rfl

/-- A summand that falls takes the sum with it. -/
theorem sum_stepsLeft_lt {ws : List Worker} {w' : Worker} (hw : ws[q]? = some w)
    (h : w'.phase.stepsLeft < w.phase.stepsLeft) :
    ((ws.set q w').map fun w => w.phase.stepsLeft).sum < (ws.map fun w => w.phase.stepsLeft).sum := by
  induction ws generalizing q with
  | nil => cases hw
  | cons v ws ih =>
    cases q with
    | zero =>
      cases hw
      simp only [List.set_cons_zero, List.map_cons, List.sum_cons]
      omega
    | succ q =>
      have hrest := ih (q := q) hw
      simp only [List.set_cons_succ, List.map_cons, List.sum_cons]
      omega

theorem Retires.stepsLeft_lt {w' : Worker} (h : Retires q w w' pool pool')
    (hclosed : pool.barrier.closed) : pool'.stepsLeft < pool.stepsLeft := by
  unfold stepsLeft
  rw [h.workers]
  exact sum_stepsLeft_lt h.before (h.nearer hclosed)

/-- What concerns connections only leaves workers as far from their ends. -/
theorem stepsLeft_of_keeps (h : List.Forall₂ Worker.Keeps pool.workers pool'.workers) :
    pool'.stepsLeft = pool.stepsLeft := by
  unfold stepsLeft
  generalize pool.workers = ws, pool'.workers = vs at h
  induction h with
  | nil => rfl
  | cons hw _ ih => rw [List.map_cons, List.map_cons, List.sum_cons, List.sum_cons, hw.phase, ih]

end Pool
end SortLast
