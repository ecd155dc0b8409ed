import SortLast.Proofs.Cluster.Pacing

/-!
# Seats and the closed barrier

What holds in every state that a cluster gets into, whatever its participants do: every participant has
a seat, nobody is found live or gets a camera twice, a shutdown closes the connections before the
barrier, and at a closed barrier no frame begins.

* `Phase.Rests`: no frame has begun.
* `System.Steady`: the invariant; `System.steady_of_ofPlan`, `System.Steady.step`, `System.Steady.run`.
-/

namespace SortLast

/-- No frame has begun, and nobody was found live for the next one. -/
def Phase.Rests : Phase → Prop
  | surveying _ _ live => live = []
  | sending .. | meeting .. | awaiting .. | judging .. | checking .. | evicting .. | rejoining ..
  | reawaiting .. | collecting .. | gathering .. => False
  | _ => True

theorem Phase.Waits.not_rests {f : Phase} {view : View} (h : f.Waits view) : ¬ f.Rests := by
  cases f with
  | idle | reaping | surveying | sending | gathering | broadcasting | exiting | closing
  | closingBarrier | joining | crashed => exact h.elim
  | _ => exact id

namespace System

variable {s t : System} {p : Nat} {a : Seat} {may : Nat → Command → Prop} {keeps : Behaviour}

/-- What holds in every state. -/
structure Steady (s : System) : Prop where
  seated : ∀ p < s.coordinator.participantCount, ∃ a, s.Sits p a
  orderly : s.phase.Orderly
  stopped : ∀ p < s.coordinator.participantCount, s.phase.Stops p ∨ s.pool.barrier.closed →
    s.coordinator.isConnected p = false
  resting : s.pool.barrier.closed → s.phase.Rests

/-- A connection that is open was open before. -/
theorem Changes.isConnected (hc : Changes may keeps s t)
    (hs : ∀ p < s.coordinator.participantCount, ∃ a, s.Sits p a)
    (hp : p < s.coordinator.participantCount) (ht : t.coordinator.isConnected p) :
    s.coordinator.isConnected p := by
  obtain ⟨a, ha⟩ := hs p hp
  obtain ⟨b, hb, hstep⟩ := hc.seat p a ha
  rw [hb.isConnected] at ht
  rw [ha.isConnected]
  exact hstep.isConnected ht

theorem Steady.changes (hs : s.Steady) (hc : Changes may keeps s t) (horderly : t.phase.Orderly)
    (hstops : ∀ p < s.coordinator.participantCount, t.phase.Stops p ∨ t.pool.barrier.closed →
      (s.phase.Stops p ∨ s.pool.barrier.closed) ∨ t.coordinator.isConnected p = false)
    (hresting : t.pool.barrier.closed → t.phase.Rests) : t.Steady where
  seated p hp := by
    rw [hc.count] at hp
    obtain ⟨a, ha⟩ := hs.seated p hp
    obtain ⟨b, hb, -⟩ := hc.seat p a ha
    exact ⟨b, hb⟩
  orderly := horderly
  stopped p hp ht := by
    rw [hc.count] at hp
    rcases hstops p hp ht with hst | hclosed
    · by_contra hopen
      have hconnected := hc.isConnected hs.seated hp (Bool.eq_true_of_not_eq_false hopen)
      rw [hs.stopped p hp hst] at hconnected
      exact Bool.false_ne_true hconnected
    · exact hclosed
  resting := hresting

/-- At a closed barrier nobody is found live, so that no frame begins. -/
theorem Turn.rests (h : Turn s t) (hs : s.Steady) (ht : t.pool.barrier.closed) : t.phase.Rests := by
  cases h with
  | reap _ hph => rcases hph with hph | hph <;> rw [hph] <;> trivial
  | look hph hlt hnext same =>
    rw [same.closed] at ht
    have hrests := hs.resting ht
    rw [hph] at hrests
    rcases hnext with hnext | ⟨hconnected, -⟩
    · rw [hnext]
      exact hrests
    · rw [hs.stopped _ hlt (.inr ht)] at hconnected
      exact absurd hconnected Bool.false_ne_true
  | begin hph _ hlive _ _ hclosed =>
    rw [hclosed] at ht
    have hrests := hs.resting ht
    rw [hph] at hrests
    exact absurd hrests hlive
  | send hph _ same | sent hph _ same | collect hph _ same =>
    rw [same.closed] at ht
    have hrests := hs.resting ht
    rw [hph] at hrests
    exact hrests.elim
  | wait hph _ same =>
    rw [same.closed] at ht
    exact absurd (hs.resting ht) hph.not_rests
  | gather hph _ _ hclosed =>
    rw [hclosed] at ht
    have hrests := hs.resting ht
    rw [hph] at hrests
    exact hrests.elim
  | nobody _ _ _ hr | refuse _ _ _ hr | finish _ _ hr | told _ _ hr | joined _ _ hr =>
    rw [hr.phase]
    trivial
  | close _ hph => rcases hph with hph | hph <;> rw [hph] <;> trivial
  | exited _ _ hph => rw [hph]; trivial
  | crash _ hph | tell _ hph | exit _ hph | closeBarrier _ hph | join _ hph =>
    rw [hph]
    trivial

/-- An operation that begins is no frame yet. -/
theorem Begins.rests {op : Operation} (h : Begins s t op) : t.phase.Rests := by
  cases h with
  | render ht => rw [ht]; trivial
  | other _ _ hph => rcases hph with ⟨c, -, hph⟩ | hph | hph | ⟨f, hph⟩ <;> rw [hph] <;> trivial

theorem Begins.orderly {op : Operation} (h : Begins s t op) : t.phase.Orderly := by
  cases h with
  | render ht => rw [ht]; trivial
  | other _ _ hph =>
    rcases hph with ⟨c, hc, hph⟩ | hph | hph | ⟨f, hph⟩ <;> rw [hph] <;> first | exact hc | trivial

/-- An operation that begins has stopped nobody. -/
theorem Begins.stops {op : Operation} (h : Begins s t op) (ht : t.phase.Stops p ∨ t.pool.barrier.closed) :
    s.pool.barrier.closed := by
  cases h with
  | render hph => subst hph; exact ht.resolve_left id
  | other _ hclosed hph =>
    rw [← hclosed]
    refine ht.resolve_left ?_
    rcases hph with ⟨c, -, hph⟩ | hph | hph | ⟨f, hph⟩ <;> rw [hph]
    · exact id
    · exact Nat.not_lt_zero p
    · exact id
    · exact id

theorem Steady.step (hs : s.Steady) (h : Step keeps s t) : t.Steady := by
  rcases step_cases h with ⟨hturn, hc⟩ | ⟨-, hsame, op, -, hbegins⟩ | ⟨hph, hbooks, hc⟩
  · exact hs.changes hc (hturn.orderly hs.orderly) (fun p => hturn.stops) (hturn.rests hs)
  · have hc : Changes (fun _ _ => False) keeps s t := hsame.changes
    exact hs.changes hc hbegins.orderly (fun p _ ht => .inl (.inr (hbegins.stops ht)))
      fun _ => hbegins.rests
  · refine hs.changes hc (by rw [hph]; exact hs.orderly) (fun p _ ht => ?_) fun ht => ?_
    · rw [hph, hbooks.closed] at ht
      exact .inl ht
    · rw [hph]
      exact hs.resting (hbooks.closed ▸ ht)

theorem Steady.run (hs : s.Steady) (h : Run keeps s t) : t.Steady := by
  induction h with
  | refl => exact hs
  | tail _ hstep ih => exact ih.step hstep

theorem Run.trans {u : System} (h : Run keeps s t) (h' : Run keeps t u) : Run keeps s u := by
  induction h' with
  | refl => exact h
  | tail _ hstep ih => exact ih.tail hstep

/-- Nobody comes and nobody goes. -/
theorem Step.participantCount (h : Step keeps s t) :
    t.coordinator.participantCount = s.coordinator.participantCount := by
  rcases step_cases h with ⟨-, hc⟩ | ⟨-, hsame, -⟩ | ⟨-, -, hc⟩
  · exact hc.count
  · exact hsame.count
  · exact hc.count

theorem Run.participantCount (h : Run keeps s t) :
    t.coordinator.participantCount = s.coordinator.participantCount := by
  induction h with
  | refl => rfl
  | tail _ hstep ih => exact hstep.participantCount.trans ih

theorem steady_of_ofPlan {config : ClusterConfig} {plan : Plan} {connections : List Connection}
    (h : System.ofPlan config plan connections = .ok s) : s.Steady := by
  obtain ⟨-, -, hpool, hphase, -⟩ := ofPlan_eq h
  constructor
  · intro p hp
    rw [participantCount_ofPlan h] at hp
    exact ⟨_, sits_of_ofPlan h (List.getElem?_eq_getElem hp)⟩
  · rw [hphase]
    trivial
  · intro p _ ht
    rw [hphase, hpool] at ht
    rcases ht with ht | ht
    · exact ht.elim
    · cases ht
  · intro _
    rw [hphase]
    trivial

end System
end SortLast
