import SortLast.Proofs.Mirror

/-!
# What a replay rebuilds

A replay carries no camera, since the next frame brings one. It rebuilds everything else, so from the
next camera update on nothing tells the rebuilt state from the original.

* `RenderState.SameFuture`: two states that no commands after a camera update tell apart;
  `sameFuture_iff` says that they are equal, the view apart.
* `RenderState.SameFuture.play`: a participant does the same in two such states.
* `RenderState.replay_rebuilds`: a fresh state after a replay.
-/

namespace SortLast
namespace RenderState

variable {s t : RenderState}

/-- Whatever commands come after a camera update, they lead both states to the same one. -/
def SameFuture (s t : RenderState) : Prop :=
  ∀ (p m : Matrix) (cs : List Command),
    s.applyAll (.matrix p m :: cs) = t.applyAll (.matrix p m :: cs)

/-- Nothing but the view is forgotten at a camera update. -/
theorem sameFuture_iff : s.SameFuture t ↔ { s with view := t.view } = t := by
  constructor
  · intro h
    exact h t.view.projection t.view.modelview []
  · intro h p m cs
    have happly : s.apply (.matrix p m) = t.apply (.matrix p m) := by
      rw [← h]
      rfl
    rw [applyAll_cons, applyAll_cons, happly]

/-- A replay leads to a state that is as good as the replayed one. -/
theorem sameFuture_replay (s : RenderState) : s.SameFuture (initial.applyAll s.replay) := by
  rw [sameFuture_iff, initial_applyAll_replay]

/-- A participant that is next asked for an image does in both states the same, up to the end of its
session. -/
theorem SameFuture.play (h : s.SameFuture t) {σ : Type} (r : Renderer σ) (x : Session σ)
    (ending : NetError) (p m : Matrix) (cs : List Command) :
    Session.play r { x with state := s } ending (.matrix p m :: cs) =
      Session.play r { x with state := t } ending (.matrix p m :: cs) := by
  have happly : s.apply (.matrix p m) = t.apply (.matrix p m) := h p m []
  rw [Session.play, Session.play, if_neg Command.noConfusion, if_neg Command.noConfusion]
  simp only [Session.handle, happly]

/-- A replay of any state leads the initial one to it, its view apart. After any commands, the state
and the one that its replay rebuilds are not told apart by any commands that start with a camera
update: neither by the states that these lead to nor by what a participant, with any renderer and any
bricks, does when it receives them. -/
theorem replay_rebuilds :
    (∀ s : RenderState, initial.applyAll s.replay = { s with view := .default }) ∧
      ∀ before : List Command,
        let original := initial.applyAll before
        let rebuilt := initial.applyAll original.replay
        original.SameFuture rebuilt ∧
          ∀ {σ : Type} (r : Renderer σ) (x : Session σ) (ending : NetError) (p m : Matrix)
            (cs : List Command),
            Session.play r { x with state := original } ending (.matrix p m :: cs) =
              Session.play r { x with state := rebuilt } ending (.matrix p m :: cs) := by
  refine ⟨initial_applyAll_replay, fun before => ?_⟩
  have hsame := sameFuture_replay (initial.applyAll before)
  exact ⟨hsame, fun r x ending p m cs => hsame.play r x ending p m cs⟩

end RenderState
end SortLast
