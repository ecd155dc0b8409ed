import Mathlib.Data.List.Count
import SortLast.Proofs.Cluster.Tally

/-!
# What becomes of waits when the barrier is closed

Whoever comes to a closed barrier is turned away, and whoever waits there is told so when it looks next.
But closing leaves the counters as they are, and a departure still completes the generation if no more
than the standing arrivals are left. A party that has not looked before that is told that its generation
is complete.

* `Meeting.Call`, `Meeting.after?`: what may happen at a barrier, in any order and by any parties.
* `Meeting.standing`: the arrivals in the current generation that wait.
* `Meeting.Counted`: the invariant of an open barrier.
* `Meeting.ClosedFrom`: what is left of a meeting after its barrier was closed.
* `Meeting.wait_closed`: how every wait ends at a closed barrier.
-/

namespace SortLast
namespace Meeting

variable {α : Type} {m n : Meeting α} {w : Waiter α} {departures : Nat}

/-- What may happen at a barrier. -/
inductive Call (α : Type) where
  | arrive (who : α)
  | wake (w : Waiter α)
  | expire (w : Waiter α)
  | leave
  | close
  deriving DecidableEq, Repr

/-- A barrier for a number of parties, none of which has arrived. -/
def start (parties : Nat) : Meeting α := { barrier := { parties } }

/-- The number of arrivals in the current generation that have not been taken back. -/
def standing (m : Meeting α) : Nat :=
  m.waiting.countP fun w => w.generation = m.barrier.generation

/-! ### Open barriers -/

/-- The counters of an open barrier are right, and nobody waits for a generation to come. -/
structure Counted (m : Meeting α) : Prop where
  tallies : m.barrier.Tallies m.barrier.parties m.standing
  past : ∀ w ∈ m.waiting, w.generation ≤ m.barrier.generation

namespace Counted

theorem start (parties : Nat) : (start parties : Meeting α).Counted where
  tallies := .start parties
  past _ hw := absurd hw List.not_mem_nil

/-- When the generation is complete, another one begins with nobody. -/
theorem next (h : m.Counted) {b : Barrier} (hb : b.generation = m.barrier.generation + 1)
    (hopen : b.closed = false) (harrived : b.arrived = 0) : Counted { m with barrier := b } where
  tallies := by
    have hnobody : standing { m with barrier := b } = 0 := by
      rw [standing, List.countP_eq_zero]
      intro w hw
      have := h.past w hw
      simp only [hb, decide_eq_true_eq]
      omega
    rw [hnobody]
    exact ⟨hopen, rfl, harrived, .inl rfl⟩
  past w hw := Nat.le_trans (h.past w hw) (by rw [hb]; exact Nat.le_succ _)

theorem arrive (h : m.Counted) (p : α) : (m.arrive p).2.Counted := by
  have hopen := h.tallies.opened
  have harrived := h.tallies.arrived
  by_cases hlast : m.barrier.parties ≤ m.barrier.arrived + 1
  · have hm : (m.arrive p).2 = { m with barrier := m.barrier.release } := by
      simp [Meeting.arrive, Barrier.arrive, hopen, hlast]
    rw [hm]
    exact h.next rfl hopen rfl
  · have hm : (m.arrive p).2 = ⟨{ m.barrier with arrived := m.barrier.arrived + 1 },
        m.waiting ++ [⟨p, m.barrier.generation⟩]⟩ := by
      simp [Meeting.arrive, Barrier.arrive, hopen, hlast]
    have hjoined : standing (⟨{ m.barrier with arrived := m.barrier.arrived + 1 },
        m.waiting ++ [⟨p, m.barrier.generation⟩]⟩ : Meeting α) = m.standing + 1 := by
      simp [standing]
    rw [hm]
    refine ⟨⟨hopen, rfl, ?_, .inr ?_⟩, ?_⟩
    · rw [hjoined, ← harrived]
    · rw [hjoined, ← harrived]
      exact Nat.lt_of_not_le hlast
    · intro w hw
      rcases List.mem_append.1 hw with hw | hw
      · exact h.past w hw
      · obtain rfl := List.mem_singleton.1 hw
        exact Nat.le_refl _

theorem leave (h : m.Counted) : m.leave.Counted := by
  have hopen := h.tallies.opened
  have harrived := h.tallies.arrived
  by_cases hlast : 0 < m.barrier.arrived ∧ m.barrier.parties - 1 ≤ m.barrier.arrived
  · have hm : m.leave = { m with
        barrier := { m.barrier with parties := m.barrier.parties - 1 }.release } := by
      rw [Meeting.leave, Barrier.leave, if_pos hlast]
    rw [hm]
    exact h.next rfl hopen rfl
  · have hm : m.leave = { m with barrier := { m.barrier with parties := m.barrier.parties - 1 } } := by
      rw [Meeting.leave, Barrier.leave, if_neg hlast]
    rw [hm]
    refine ⟨⟨hopen, rfl, harrived, ?_⟩, h.past⟩
    show m.standing = 0 ∨ m.standing < m.barrier.parties - 1
    omega

variable [DecidableEq α]

/-- A wait ends whose generation was completed before. -/
theorem follow (h : m.Counted) (hg : w.generation ≠ m.barrier.generation) :
    Counted { m with waiting := m.waiting.erase w } where
  tallies := by
    have hsame : standing { m with waiting := m.waiting.erase w } = m.standing := by
      simp [standing, List.countP_erase, hg]
    rw [hsame]
    exact h.tallies
  past v hv := h.past v (List.mem_of_mem_erase hv)

/-- A wait ends that takes its arrival back. -/
theorem withdraw (h : m.Counted) (hw : w ∈ m.waiting) (hg : w.generation = m.barrier.generation) :
    Counted ⟨m.barrier.withdraw, m.waiting.erase w⟩ where
  tallies := by
    have hless : standing ⟨m.barrier.withdraw, m.waiting.erase w⟩ = m.standing - 1 := by
      rw [standing, List.countP_erase, if_pos ⟨hw, decide_eq_true hg⟩]
      rfl
    rw [hless]
    exact h.tallies.expire_current.2
  past v hv := h.past v (List.mem_of_mem_erase hv)

theorem wake (h : m.Counted) (w : Waiter α) : (m.wake w).2.Counted := by
  rw [Meeting.wake, h.tallies.poll]
  by_cases hg : m.barrier.generation = w.generation
  · rw [if_pos hg]
    exact h
  · rw [if_neg hg]
    exact h.follow (Ne.symm hg)

theorem expire (h : m.Counted) (hw : w ∈ m.waiting) : (m.expire w).2.Counted := by
  rw [Meeting.expire]
  by_cases hg : m.barrier.generation = w.generation
  · rw [← hg, h.tallies.expire_current.1]
    exact h.withdraw hw hg.symm
  · rw [h.tallies.expire_past hg]
    exact h.follow (Ne.symm hg)

end Counted

/-! ### Closed barriers -/

/-- How a wait ends at a barrier that was closed as `m`, after some departures: with the news that it is
closed, if the generation was the current one and more than the standing arrivals are left, and
otherwise as every wait whose generation is complete. -/
def closing (m : Meeting α) (departures : Nat) (w : Waiter α) : WaitResult :=
  if w.generation = m.barrier.generation ∧ m.standing + departures < m.barrier.parties then
    .failed .closed
  else .follower

/-- What is left of a meeting that was closed as `m`, after some departures: nobody has begun to wait,
and the departures have completed the generation if no more than the standing arrivals were left. -/
structure ClosedFrom (m : Meeting α) (departures : Nat) (n : Meeting α) : Prop where
  closed : n.barrier.closed
  waiting : n.waiting ⊆ m.waiting
  parties : n.barrier.parties = m.barrier.parties - departures
  counters : (m.standing = 0 ∨ m.standing + departures < m.barrier.parties) ∧
      n.barrier.arrived = m.standing ∧ n.barrier.generation = m.barrier.generation ∨
    (0 < m.standing ∧ m.barrier.parties ≤ m.standing + departures) ∧
      n.barrier.arrived = 0 ∧ n.barrier.generation = m.barrier.generation + 1

namespace ClosedFrom

theorem start (h : m.Counted) : ClosedFrom m 0 m.close where
  closed := rfl
  waiting := List.Subset.refl _
  parties := rfl
  counters := .inl ⟨h.tallies.below, h.tallies.arrived, rfl⟩

/-- Nobody is let in. -/
theorem arrive (h : ClosedFrom m departures n) (p : α) :
    n.arrive p = (some (.failed .closed), n) := by
  rw [Meeting.arrive, Barrier.arrive, if_pos h.closed]

/-- A waiting party that looks is told that the barrier is closed, unless its generation is complete. -/
theorem poll (h : ClosedFrom m departures n) (g : Nat) :
    n.barrier.poll g = some (if n.barrier.generation = g then .failed .closed else .follower) := by
  rw [Barrier.poll, h.closed]
  by_cases hg : n.barrier.generation = g <;> simp [hg]

theorem leave (h : ClosedFrom m departures n) : ClosedFrom m (departures + 1) n.leave := by
  have hparties : n.barrier.parties - 1 = m.barrier.parties - (departures + 1) := by
    rw [h.parties, Nat.sub_sub]
  rw [Meeting.leave, Barrier.leave]
  by_cases hlast : 0 < n.barrier.arrived ∧ n.barrier.parties - 1 ≤ n.barrier.arrived
  · rw [if_pos hlast]
    refine ⟨h.closed, h.waiting, hparties, .inr ?_⟩
    rcases h.counters with ⟨-, harrived, hgeneration⟩ | ⟨-, harrived, -⟩
    · exact ⟨by omega, rfl, congrArg (· + 1) hgeneration⟩
    · omega
  · rw [if_neg hlast]
    refine ⟨h.closed, h.waiting, hparties, ?_⟩
    rcases h.counters with ⟨hbelow, harrived, hgeneration⟩ | ⟨hcomplete, harrived, hgeneration⟩
    · exact .inl ⟨by omega, harrived, hgeneration⟩
    · exact .inr ⟨by omega, harrived, hgeneration⟩

/-- It makes no difference when the departures have completed the generation. -/
theorem result (h : ClosedFrom m departures n) (hm : m.Counted) (hw : w ∈ n.waiting) :
    (if n.barrier.generation = w.generation then .failed .closed else .follower : WaitResult) =
      m.closing departures w := by
  have hmem := h.waiting hw
  have hpast := hm.past w hmem
  unfold closing
  by_cases hg : w.generation = m.barrier.generation
  · have hpos : 0 < m.standing := List.countP_pos_iff.2 ⟨w, hmem, decide_eq_true hg⟩
    refine if_congr ?_ rfl rfl
    rcases h.counters with ⟨hbelow, -, hsame⟩ | ⟨hcomplete, -, hnext⟩
    · exact iff_of_true (hsame.trans hg.symm) ⟨hg, by omega⟩
    · exact iff_of_false (by omega) (by omega)
  · have hne : n.barrier.generation ≠ w.generation := by
      rcases h.counters with ⟨-, -, hsame⟩ | ⟨-, -, hnext⟩ <;> omega
    rw [if_neg hne, if_neg fun hboth => hg hboth.1]

variable [DecidableEq α]

/-- The end of a wait changes nothing else, not even if its time has run out. -/
theorem wake (h : ClosedFrom m departures n) (w : Waiter α) :
    n.wake w = (some (if n.barrier.generation = w.generation then .failed .closed else .follower),
      { n with waiting := n.waiting.erase w }) := by
  rw [Meeting.wake, h.poll]

theorem expire (h : ClosedFrom m departures n) (w : Waiter α) :
    n.expire w = (if n.barrier.generation = w.generation then .failed .closed else .follower,
      { n with waiting := n.waiting.erase w }) := by
  rw [Meeting.expire, Barrier.expire, h.poll]

theorem erase (h : ClosedFrom m departures n) (w : Waiter α) :
    ClosedFrom m departures { n with waiting := n.waiting.erase w } :=
  ⟨h.closed, List.Subset.trans (List.erase_subset ..) h.waiting, h.parties, h.counters⟩

end ClosedFrom

/-! ### Calls -/

variable [DecidableEq α]

/-- The meeting after something has happened, if it can happen. -/
def call (m : Meeting α) : Call α → Option (Meeting α)
  | .arrive p => some (m.arrive p).2
  | .wake w => if m.waiting.contains w then some (m.wake w).2 else none
  | .expire w => if m.waiting.contains w then some (m.expire w).2 else none
  | .leave => some m.leave
  | .close => some m.close

/-- The meeting after several things have happened, if all of them can. -/
def after? (m : Meeting α) : List (Call α) → Option (Meeting α)
  | [] => some m
  | c :: cs => (m.call c).bind fun n => n.after? cs

/-- Nothing but closing the barrier changes what is known of it while it is open. -/
theorem Counted.call (h : m.Counted) {c : Call α} (hopen : c ≠ .close) (hc : m.call c = some n) :
    n.Counted := by
  cases c with
  | arrive p =>
    cases hc
    exact h.arrive p
  | wake w =>
    obtain ⟨-, hn⟩ := Option.ite_none_right_eq_some.1 hc
    cases hn
    exact h.wake w
  | expire w =>
    obtain ⟨hw, hn⟩ := Option.ite_none_right_eq_some.1 hc
    cases hn
    exact h.expire (List.contains_iff_mem.1 hw)
  | leave =>
    cases hc
    exact h.leave
  | close => exact absurd rfl hopen

theorem Counted.after {calls : List (Call α)} (h : m.Counted) (hopen : .close ∉ calls)
    (hcalls : m.after? calls = some n) : n.Counted := by
  induction calls generalizing m with
  | nil => cases hcalls; exact h
  | cons c cs ih =>
    rw [List.mem_cons, not_or] at hopen
    obtain ⟨m₁, hc, hcs⟩ := Option.bind_eq_some_iff.1 hcalls
    exact ih (h.call (Ne.symm hopen.1) hc) hopen.2 hcs

theorem ClosedFrom.call (h : ClosedFrom m departures n) {c : Call α} {n' : Meeting α}
    (hc : n.call c = some n') :
    ClosedFrom m (departures + if c = .leave then 1 else 0) n' := by
  cases c with
  | arrive p =>
    cases hc
    rw [h.arrive]
    exact h
  | wake w =>
    obtain ⟨-, hn⟩ := Option.ite_none_right_eq_some.1 hc
    cases hn
    rw [h.wake]
    exact h.erase w
  | expire w =>
    obtain ⟨-, hn⟩ := Option.ite_none_right_eq_some.1 hc
    cases hn
    rw [h.expire]
    exact h.erase w
  | leave =>
    cases hc
    exact h.leave
  | close =>
    cases hc
    exact ⟨rfl, h.waiting, h.parties, h.counters⟩

/-- The induction is on the calls, the first of which comes first, so that the departures before them
vary. -/
theorem ClosedFrom.after {calls : List (Call α)} {n' : Meeting α} (h : ClosedFrom m departures n)
    (hcalls : n.after? calls = some n') : ClosedFrom m (departures + calls.count .leave) n' := by
  induction calls generalizing n departures with
  | nil => cases hcalls; exact h
  | cons c cs ih =>
    obtain ⟨n₁, hc, hcs⟩ := Option.bind_eq_some_iff.1 hcalls
    have hall := ih (h.call hc) hcs
    rw [List.count_cons, Nat.add_comm (cs.count _), ← Nat.add_assoc]
    simpa using hall

/-- However parties have waited, given up and left at a barrier before it was first closed, and whatever
has happened since then: whoever comes is turned away at once, and whoever waits has waited since before
and learns at its next look, whether of itself or because its time has run out, that the wait is over.
It is told that the barrier is closed just if its generation was not complete when the barrier was
closed, and the parties that have left since then leave more than the standing arrivals. -/
theorem wait_closed {parties : Nat} {before after : List (Call α)}
    (hbefore : (start parties).after? before = some m) (hopen : .close ∉ before)
    (hafter : m.close.after? after = some n) :
    (m.standing = 0 ∨ m.standing < m.barrier.parties) ∧
    (∀ p, n.arrive p = (some (.failed .closed), n)) ∧
    ∀ w ∈ n.waiting, w ∈ m.waiting ∧ w.generation ≤ m.barrier.generation ∧
      n.wake w = (some (m.closing (after.count .leave) w),
        { n with waiting := n.waiting.erase w }) ∧
      n.expire w = (m.closing (after.count .leave) w, { n with waiting := n.waiting.erase w }) := by
  have hm := (Counted.start parties).after hopen hbefore
  have hn := (ClosedFrom.start hm).after hafter
  rw [Nat.zero_add] at hn
  refine ⟨hm.tallies.below, hn.arrive, fun w hw => ⟨hn.waiting hw, hm.past w (hn.waiting hw), ?_, ?_⟩⟩
  · rw [hn.wake, hn.result hm hw]
  · rw [hn.expire, hn.result hm hw]

/-- Two of four parties wait when the barrier is closed, and a third one leaves. The one that looks
before learns what the other learns after. -/
theorem wait_closed_three : ∃ m n : Meeting (Fin 4),
    (start 4).after? [.arrive 0, .arrive 1] = some m ∧
    m.close.after? [.wake ⟨1, 0⟩, .leave] = some n ∧
    n.wake ⟨0, 0⟩ = (some (.failed .closed), { n with waiting := [] }) ∧
    n.arrive 1 = (some (.failed .closed), n) := by
  have hbefore : (start 4).after? [.arrive 0, .arrive 1] =
      some (⟨⟨4, 2, 0, false⟩, [⟨0, 0⟩, ⟨1, 0⟩]⟩ : Meeting (Fin 4)) := by decide
  have hafter : (close ⟨⟨4, 2, 0, false⟩, [⟨0, 0⟩, ⟨1, 0⟩]⟩).after? [.wake ⟨1, 0⟩, .leave] =
      some (⟨⟨3, 2, 0, true⟩, [⟨0, 0⟩]⟩ : Meeting (Fin 4)) := by decide
  obtain ⟨-, harrive, hwait⟩ := wait_closed hbefore (by decide) hafter
  obtain ⟨-, -, hwake, -⟩ := hwait ⟨0, 0⟩ (by decide)
  exact ⟨_, _, hbefore, hafter, hwake, harrive 1⟩

/-- Of two parties one waits when the barrier is closed. The other one leaves before it looks, and it
is told that its generation is complete. -/
theorem wait_closed_deserted : ∃ m n : Meeting (Fin 2),
    (start 2).after? [.arrive 0] = some m ∧ m.barrier.closed = false ∧
    m.barrier.generation = 0 ∧ m.waiting = [⟨0, 0⟩] ∧
    m.close.after? [.leave] = some n ∧ n.barrier.closed ∧ n.waiting = [⟨0, 0⟩] ∧
    (n.wake ⟨0, 0⟩).1 = some .follower :=
  ⟨⟨⟨2, 1, 0, false⟩, [⟨0, 0⟩]⟩, ⟨⟨1, 0, 1, true⟩, [⟨0, 0⟩]⟩, by decide⟩

end Meeting
end SortLast
