import SortLast.Cluster.Barrier

/-!
# The counters of the barrier

A barrier stores two numbers and no names. What they mean is fixed by two others: how many parties are
present, and how many of these have an arrival in the current generation that they have not taken back.

* `Barrier.Tallies`: the counters of an open barrier agree with these two numbers.
* `Barrier.Tallies.arrive`, `Barrier.Tallies.leave`: an arrival or a departure either completes the
  generation or is counted.
* `Barrier.Tallies.expire_current`, `Barrier.Tallies.expire_past`: the end of a timed wait.
-/

namespace SortLast
namespace Barrier

/-- The barrier is open and has been told of `present` parties, `standing` of which have a standing
arrival in the current generation. They are never all of them. -/
structure Tallies (b : Barrier) (present standing : Nat) : Prop where
  opened : b.closed = false
  parties : b.parties = present
  arrived : b.arrived = standing
  below : standing = 0 ∨ standing < present

namespace Tallies

variable {b : Barrier} {present standing g : Nat}

/-- A new barrier. -/
theorem start (n : Nat) : Tallies { parties := n } n 0 := ⟨rfl, rfl, rfl, .inl rfl⟩

/-- A completed generation leaves nobody standing. -/
theorem release (h : b.Tallies present standing) : b.release.Tallies present 0 :=
  ⟨h.opened, h.parties, rfl, .inl rfl⟩

/-- The last party that is present completes the generation by its arrival, any other waits. -/
theorem arrive (h : b.Tallies present standing) (hlt : standing < present) :
    (standing + 1 = present ∧ b.arrive = (.returns .leader, b.release)) ∨
    (standing + 1 < present ∧ ∃ b', b.arrive = (.waits b.generation, b') ∧
      b'.generation = b.generation ∧ b'.Tallies present (standing + 1)) := by
  obtain ⟨hopen, rfl, rfl, -⟩ := h
  rw [Barrier.arrive, hopen, if_neg Bool.false_ne_true]
  by_cases hlast : b.parties ≤ b.arrived + 1
  · exact .inl ⟨by omega, by rw [if_pos hlast]⟩
  · refine .inr ⟨by omega, { b with arrived := b.arrived + 1 }, ?_, rfl, hopen, rfl, rfl, ?_⟩
    · rw [if_neg hlast, hopen]
    · exact .inr (by omega)

/-- The departure of the last party that was awaited completes the generation. Otherwise there is one
party less. -/
theorem leave (h : b.Tallies present standing) (hlt : standing < present) :
    (0 < standing ∧ standing + 1 = present ∧ b.leave.generation = b.generation + 1 ∧
      b.leave.Tallies (present - 1) 0) ∨
    (b.leave.generation = b.generation ∧ b.leave.Tallies (present - 1) standing) := by
  obtain ⟨hopen, rfl, rfl, -⟩ := h
  rw [Barrier.leave]
  by_cases hlast : 0 < b.arrived ∧ b.parties - 1 ≤ b.arrived
  · refine .inl ⟨hlast.1, by omega, ?_⟩
    rw [if_pos hlast]
    exact ⟨rfl, hopen, rfl, rfl, .inl rfl⟩
  · rw [if_neg hlast]
    exact .inr ⟨rfl, hopen, rfl, rfl, by show b.arrived = 0 ∨ b.arrived < b.parties - 1; omega⟩

/-- A wait goes on while its generation is the current one. -/
theorem poll (h : b.Tallies present standing) (g : Nat) :
    b.poll g = if b.generation = g then none else some .follower := by
  rw [Barrier.poll, h.opened]
  by_cases hg : b.generation = g <;> simp [hg]

/-- A wait whose generation was completed is over, whether its time has run out or not. -/
theorem expire_past (h : b.Tallies present standing) (hg : b.generation ≠ g) :
    b.expire g = (.follower, b) := by
  rw [Barrier.expire, h.poll, if_neg hg]

/-- A wait whose time runs out before takes its arrival back. -/
theorem expire_current (h : b.Tallies present standing) :
    b.expire b.generation = (.failed .timedOut, b.withdraw) ∧
      b.withdraw.Tallies present (standing - 1) := by
  refine ⟨by rw [Barrier.expire, h.poll, if_pos rfl], h.opened, h.parties, ?_, ?_⟩
  · show b.arrived - 1 = _
    rw [h.arrived]
  · have := h.below
    omega

end Tallies
end Barrier
end SortLast
