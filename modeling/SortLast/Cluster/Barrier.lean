/-!
# The frame barrier

A meeting point for a shrinking number of parties. A generation completes when every remaining party
has arrived in it, by the last arrival or by the departure of the last party that was awaited. An
arrival can be withdrawn, and a closed barrier turns everybody away.

* `Barrier.arrive`, `Barrier.poll`, `Barrier.withdraw`: the parts of a wait.
* `Barrier.leave`, `Barrier.close`.
* `Meeting`: a barrier with the parties that wait at it.
-/

namespace SortLast

/-- Why a wait ends before its generation completes. -/
inductive BarrierError where
  | closed
  | timedOut
  deriving DecidableEq, Repr

/-- The wording of a barrier error. -/
def BarrierError.message : BarrierError → String
  | closed => "Barrier closed"
  | timedOut => "Barrier wait timed out"

/-- How a wait ends. -/
inductive WaitResult where
  /-- The arrival completed its generation. -/
  | leader
  /-- The generation of the arrival was completed by another party. -/
  | follower
  | failed (e : BarrierError)
  deriving DecidableEq, Repr

/-- A barrier. -/
structure Barrier where
  parties : Nat
  /-- Standing arrivals in the current generation. -/
  arrived : Nat := 0
  generation : Nat := 0
  closed : Bool := false
  deriving DecidableEq, Repr

/-- What an arrival at a barrier meets with. -/
inductive Arrival where
  | returns (r : WaitResult)
  | waits (generation : Nat)
  deriving DecidableEq, Repr

namespace Barrier

/-- Complete the generation. -/
def release (b : Barrier) : Barrier := { b with arrived := 0, generation := b.generation + 1 }

/-- A party arrives. -/
def arrive (b : Barrier) : Arrival × Barrier :=
  if b.closed then (.returns (.failed .closed), b)
  else if b.parties ≤ b.arrived + 1 then (.returns .leader, b.release)
  else (.waits b.generation, { b with arrived := b.arrived + 1 })

/-- How the wait of a party ends that arrived in a generation, if it ends now. -/
def poll (b : Barrier) (generation : Nat) : Option WaitResult :=
  -- a completed generation comes first, even if a departure has completed it at a closed barrier
  if b.generation ≠ generation then some .follower
  else if b.closed then some (.failed .closed)
  else none

/-- Take back an arrival in the current generation. -/
def withdraw (b : Barrier) : Barrier := { b with arrived := b.arrived - 1 }

/-- How the wait of a party ends whose time runs out, and the barrier after it. -/
def expire (b : Barrier) (generation : Nat) : WaitResult × Barrier :=
  match b.poll generation with
  | some r => (r, b)
  | none => (.failed .timedOut, b.withdraw)

/-- A party that does not wait leaves for good. -/
def leave (b : Barrier) : Barrier :=
  let b := { b with parties := b.parties - 1 }
  if 0 < b.arrived ∧ b.parties ≤ b.arrived then b.release else b

/-- Turn everybody away from now on. -/
def close (b : Barrier) : Barrier := { b with closed := true }

end Barrier

/-- A party that waits at a barrier. -/
structure Waiter (α : Type) where
  who : α
  generation : Nat
  deriving DecidableEq, Repr

/-- A barrier with the parties that wait at it. -/
structure Meeting (α : Type) where
  barrier : Barrier
  waiting : List (Waiter α) := []
  deriving DecidableEq, Repr

namespace Meeting

variable {α : Type}

/-- A party begins to wait; a result means that its wait is over at once. -/
def arrive (m : Meeting α) (who : α) : Option WaitResult × Meeting α :=
  match m.barrier.arrive with
  | (.returns r, b) => (some r, { m with barrier := b })
  | (.waits g, b) => (none, { barrier := b, waiting := m.waiting ++ [⟨who, g⟩] })

/-- A waiting party looks whether its wait is over. It may do so at any moment. -/
def wake [DecidableEq α] (m : Meeting α) (w : Waiter α) : Option WaitResult × Meeting α :=
  match m.barrier.poll w.generation with
  | some r => (some r, { m with waiting := m.waiting.erase w })
  | none => (none, m)

/-- The time of a waiting party runs out. -/
def expire [DecidableEq α] (m : Meeting α) (w : Waiter α) : WaitResult × Meeting α :=
  let (r, b) := m.barrier.expire w.generation
  (r, { barrier := b, waiting := m.waiting.erase w })

/-- A party that does not wait leaves. -/
def leave (m : Meeting α) : Meeting α := { m with barrier := m.barrier.leave }

/-- The barrier is closed. -/
def close (m : Meeting α) : Meeting α := { m with barrier := m.barrier.close }

/-- All waiting parties look whether their waits are over. -/
def settle (m : Meeting α) : List (α × WaitResult) × Meeting α :=
  (m.waiting.filterMap fun w => (m.barrier.poll w.generation).map fun r => (w.who, r),
    { m with waiting := m.waiting.filter fun w => (m.barrier.poll w.generation).isNone })

/-- The result of a wait of one party while no other party moves; `none` if it would not end, and
then it is not begun. -/
def waitAlone (m : Meeting α) : Option WaitResult × Meeting α :=
  match m.barrier.arrive with
  | (.returns r, b) => (some r, { m with barrier := b })
  | (.waits _, _) => (none, m)

/-- The result of a timed wait of one party while no other party moves. -/
def waitTimed (m : Meeting α) : WaitResult × Meeting α :=
  match m.barrier.arrive with
  | (.returns r, b) => (r, { m with barrier := b })
  | (.waits g, b) =>
    let (r, b) := b.expire g
    (r, { m with barrier := b })

end Meeting

end SortLast
