import SortLast.Proofs.Wire.Sink
import SortLast.Participant.Session

/-!
# The mirrored state of a participant

A proxy mirrors the parameters that it has sent. Sending them again leads a fresh participant to the
state that was mirrored before, but it goes through the mirror too, and one of the commands does not
set a parameter, it flips one.

* `RenderState.applyAll_replay`: what a replay does to any state.
* `Proxy.sendAll_ok`, `Proxy.sendAll_of_reliable`: commands that were sent, and that can be.
* `Session.run_state`: the state of a participant after a stream of parameters.
* `Proxy.resync_keeps_mirror_iff`: the mirror and a fresh participant after a replay; they are as they
  should be only while the bounding box is hidden.
-/

namespace SortLast

/-! ### Replays -/

namespace RenderState

theorem applyAll_append (s : RenderState) (as bs : List Command) :
    s.applyAll (as ++ bs) = (s.applyAll as).applyAll bs := List.foldl_append

theorem applyAll_cons (s : RenderState) (c : Command) (cs : List Command) :
    s.applyAll (c :: cs) = (s.apply c).applyAll cs := rfl

/-- A replay sets every parameter that has a value, keeps the view, and flips the bounding box if it
is shown. -/
theorem applyAll_replay (s t : RenderState) :
    t.applyAll s.replay =
      { s with
        view := t.view
        objectDirection := s.objectDirection <|> t.objectDirection
        viewingDirection := s.viewingDirection <|> t.viewingDirection
        position := s.position <|> t.position
        boundingBox := t.boundingBox ^^ s.boundingBox
        transferFunction := s.transferFunction <|> t.transferFunction } := by
  obtain ⟨_, _, _, _, _, object, viewing, position, _, _, _, shown, transfer, _, _⟩ := s
  simp only [replay, applyAll_append]
  -- the optional parameters do not interact, so each is settled by itself
  cases object <;> cases viewing <;> cases position <;> cases transfer <;> cases shown <;>
    simp [applyAll, apply, initial]

/-- A replay leads the initial state to the replayed one, the view apart. -/
theorem initial_applyAll_replay (s : RenderState) :
    initial.applyAll s.replay = { s with view := .default } := by
  rw [applyAll_replay]
  simp [initial]

/-- A replay hides the bounding box of the very state that it was made from. -/
theorem applyAll_replay_self (s : RenderState) :
    s.applyAll s.replay = { s with boundingBox := false } := by
  rw [applyAll_replay]
  simp

theorem hide_eq_self_iff (s : RenderState) :
    { s with boundingBox := false } = s ↔ s.boundingBox = false := by
  cases s
  simp [eq_comm]

/-- The transfer function, if there is one, fits into a frame; all other parameters always do. -/
def Sendable (s : RenderState) : Prop :=
  ∀ t, s.transferFunction = some t → (Command.transferFunction t).Framed

theorem initial_sendable : initial.Sendable := by
  intro t h
  cases h

theorem Sendable.apply {s : RenderState} (h : s.Sendable) {c : Command} (hc : c.Framed) :
    (s.apply c).Sendable := by
  cases c with
  | transferFunction t =>
    intro u hu
    cases hu
    exact hc
  | _ => exact h

theorem Sendable.applyAll {s : RenderState} (h : s.Sendable) {cs : List Command}
    (hcs : ∀ c ∈ cs, c.Framed) : (s.applyAll cs).Sendable := by
  induction cs generalizing s with
  | nil => exact h
  | cons c cs ih =>
    rw [List.forall_mem_cons] at hcs
    exact ih (h.apply hcs.1) hcs.2

end RenderState

namespace Command

/-- A command that sets a parameter other than the view. -/
def IsParameter : Command → Prop
  | matrix .. | bricks _ | exit => False
  | _ => True

/-- A parameter other than a transfer function is sent in a few bytes. -/
theorem IsParameter.framed {c : Command} (h : c.IsParameter) (ht : ∀ t, c ≠ transferFunction t) :
    c.Framed := by
  intro m hm
  cases c with
  | transferFunction t => exact absurd rfl (ht t)
  | matrix | bricks | exit => exact h.elim
  | _ =>
    simp only [messages, payload, List.mem_cons, List.not_mem_nil, or_false] at hm
    rcases hm with rfl | rfl <;> exact of_decide_eq_true rfl

end Command

namespace RenderState

theorem forall_mem_replay (s : RenderState) :
    ∀ c ∈ s.replay, c.IsParameter ∧ ∀ t, c = .transferFunction t → s.transferFunction = some t := by
  intro c hc
  simp only [replay, List.mem_append, List.mem_cons, List.not_mem_nil, Option.mem_toList,
    Option.map_eq_some_iff, or_false] at hc
  rcases hc with ((((((hc | hc) | hc) | hc) | hc) | hc) | hc) | hc
  · rcases hc with rfl | rfl | rfl <;> exact ⟨trivial, by simp⟩
  · obtain ⟨v, -, rfl⟩ := hc
    exact ⟨trivial, by simp⟩
  · obtain ⟨v, -, rfl⟩ := hc
    exact ⟨trivial, by simp⟩
  · obtain ⟨v, -, rfl⟩ := hc
    exact ⟨trivial, by simp⟩
  · rcases hc with rfl | rfl | rfl <;> exact ⟨trivial, by simp⟩
  · split at hc
    · rw [List.mem_singleton.1 hc]
      exact ⟨trivial, by simp⟩
    · exact absurd hc List.not_mem_nil
  · obtain ⟨v, hv, rfl⟩ := hc
    exact ⟨trivial, by simp [hv]⟩
  · rcases hc with rfl | rfl <;> exact ⟨trivial, by simp⟩

/-- What was mirrored can be sent again. -/
theorem Sendable.replay {s : RenderState} (h : s.Sendable) : ∀ c ∈ s.replay, c.Framed := by
  intro c hc
  obtain ⟨hp, ht⟩ := s.forall_mem_replay c hc
  by_cases hf : ∃ t, c = .transferFunction t
  · obtain ⟨t, rfl⟩ := hf
    exact h t (ht t rfl)
  · exact hp.framed fun t hct => hf ⟨t, hct⟩

end RenderState

/-! ### Proxies -/

namespace Proxy

theorem send_ok {p q : Proxy} {c : Command} (h : p.send c = (.ok (), q)) :
    c.Framed ∧ q.sink.accepted = p.sink.accepted ++ c.bytes ∧ q.state = p.state.apply c := by
  unfold send at h
  split at h
  · cases h
  · split at h
    · rename_i t ht
      cases h
      obtain ⟨hc, ha⟩ := Sink.putCommand_ok ht
      exact ⟨hc, ha, rfl⟩
    · cases h

/-- Commands that were all sent are on the stream one after the other, and the mirror has followed
them. -/
theorem sendAll_ok {p q : Proxy} {cs : List Command} (h : p.sendAll cs = (.ok (), q)) :
    (∀ c ∈ cs, c.Framed) ∧ q.sink.accepted = p.sink.accepted ++ cs.flatMap Command.bytes ∧
      q.state = p.state.applyAll cs := by
  induction cs generalizing p with
  | nil =>
    cases h
    exact ⟨by simp, by simp, rfl⟩
  | cons c cs ih =>
    unfold sendAll at h
    split at h
    · rename_i r hr
      obtain ⟨hc, ha, hs⟩ := send_ok hr
      obtain ⟨hcs, hb, ht⟩ := ih h
      refine ⟨List.forall_mem_cons.2 ⟨hc, hcs⟩, ?_, ?_⟩
      · rw [hb, ha, List.flatMap_cons, List.append_assoc]
      · rw [ht, hs, RenderState.applyAll_cons]
    · cases h

/-- A connection that is open and never fails. -/
structure Reliable (p : Proxy) : Prop where
  isConnected : p.isConnected
  sink : p.sink.Reliable

theorem Reliable.send {p : Proxy} (h : p.Reliable) {c : Command} (hc : c.Framed) :
    ∃ q, p.send c = (.ok (), q) ∧ q.Reliable := by
  obtain ⟨t, ht, hr⟩ := h.sink.putCommand hc
  refine ⟨{ p with sink := t, state := p.state.apply c }, ?_, h.isConnected, hr⟩
  unfold Proxy.send
  rw [h.isConnected, ht]
  rfl

theorem Reliable.sendAll {p : Proxy} (h : p.Reliable) {cs : List Command}
    (hcs : ∀ c ∈ cs, c.Framed) : ∃ q, p.sendAll cs = (.ok (), q) ∧ q.Reliable := by
  induction cs generalizing p with
  | nil => exact ⟨p, rfl, h⟩
  | cons c cs ih =>
    rw [List.forall_mem_cons] at hcs
    obtain ⟨q, hq, hr⟩ := h.send hcs.1
    obtain ⟨r, hs, hr⟩ := ih hr hcs.2
    exact ⟨r, by rw [Proxy.sendAll, hq]; exact hs, hr⟩

/-- Whatever was sent through a connection that never fails, it is open and never fails afterwards. -/
theorem Reliable.of_sendAll_ok {p q : Proxy} (h : p.Reliable) {cs : List Command}
    (hs : p.sendAll cs = (.ok (), q)) : q.Reliable := by
  obtain ⟨r, hr, hq⟩ := h.sendAll (sendAll_ok hs).1
  rw [hs] at hr
  cases hr
  exact hq

end Proxy

/-! ### Fresh participants -/

namespace Session

variable {σ : Type}

theorem handle_parameter (r : Renderer σ) (s : Session σ) {c : Command} (hc : c.IsParameter) :
    handle r s c = (.ok (), { s with state := s.state.apply c }) := by
  cases c with
  | matrix | bricks | exit => exact hc.elim
  | _ => rfl

/-- Parameters need no answer and cannot fail. -/
theorem play_state (r : Renderer σ) (s : Session σ) (ending : NetError) {cs : List Command}
    (hcs : ∀ c ∈ cs, c.IsParameter) : (play r s ending cs).2.state = s.state.applyAll cs := by
  induction cs generalizing s with
  | nil =>
    unfold play
    split <;> rfl
  | cons c cs ih =>
    rw [List.forall_mem_cons] at hcs
    have hne : c ≠ .exit := by
      rintro rfl
      exact hcs.1
    rw [play, if_neg hne, handle_parameter r _ hcs.1]
    exact ih _ hcs.2

/-- A fresh participant that reads a stream of parameters, in whatever chunks, ends in the state that
they set. -/
theorem run_state (r : Renderer σ) (renderer : σ) (sink : Sink) {source : Source}
    {cs : List Command} (hcs : ∀ c ∈ cs, c.IsParameter) (hf : ∀ c ∈ cs, c.Framed)
    (h : source.bytes = cs.flatMap Command.bytes) :
    (run r renderer source sink).2.state = RenderState.initial.applyAll cs := by
  have hc : source.commands = (cs, source.ending) :=
    Source.commands_eq hf Unfinished.nil (by rw [h, List.append_nil])
  rw [run, hc]
  exact play_state r _ _ hcs

end Session

/-! ### The mirror after a replay -/

namespace Proxy

/-- A connection that never fails takes every replay. -/
theorem Reliable.resync {p q : Proxy} {cs : List Command} (hp : p.Reliable)
    (hinit : p.state = .initial) (hs : p.sendAll cs = (.ok (), q)) :
    ∃ r, q.resync = (.ok (), r) := by
  obtain ⟨hcs, -, hq⟩ := sendAll_ok hs
  have hsend : q.state.Sendable := by
    rw [hq, hinit]
    exact RenderState.initial_sendable.applyAll hcs
  obtain ⟨r, hr, -⟩ := (hp.of_sendAll_ok hs).sendAll hsend.replay
  exact ⟨r, hr⟩

/-- A successful replay hides the bounding box in the mirror, and puts the replayed commands on the
stream. -/
theorem resync_ok {q r : Proxy} (h : q.resync = (.ok (), r)) :
    r.state = { q.state with boundingBox := false } ∧
      r.sink.accepted = q.sink.accepted ++ q.state.replay.flatMap Command.bytes := by
  obtain ⟨-, ha, hs⟩ := sendAll_ok h
  exact ⟨by rw [hs, RenderState.applyAll_replay_self], ha⟩

/-- A fresh participant that reads a replay is led to the replayed state, the view apart. -/
theorem run_resync {σ : Type} {q r : Proxy} (h : q.resync = (.ok (), r)) {source : Source}
    (hb : r.sink.accepted = q.sink.accepted ++ source.bytes) (f : Renderer σ) (renderer : σ)
    (sink : Sink) :
    (Session.run f renderer source sink).2.state = { q.state with view := .default } := by
  have hbytes : source.bytes = q.state.replay.flatMap Command.bytes :=
    List.append_cancel_left (hb.symm.trans (resync_ok h).2)
  rw [Session.run_state f renderer sink (fun c hc => (q.state.forall_mem_replay c hc).1)
    (sendAll_ok h).1 hbytes, RenderState.initial_applyAll_replay]

/-- After any commands sent over a connection that never fails, the state can be sent again, and that
leaves the mirror as it was, and a fresh participant in the mirrored state, exactly if the bounding
box was hidden. Otherwise the mirror has lost the box that the participant shows. -/
theorem resync_keeps_mirror_iff {p q : Proxy} {cs : List Command} (hp : p.Reliable)
    (hinit : p.state = .initial) (hs : p.sendAll cs = (.ok (), q)) :
    ∃ r, q.resync = (.ok (), r) ∧ r.state = { q.state with boundingBox := false } ∧
      (r.state = q.state ↔ q.state.boundingBox = false) ∧
      ∀ {σ : Type} (f : Renderer σ) (renderer : σ) (source : Source) (sink : Sink),
        r.sink.accepted = q.sink.accepted ++ source.bytes →
          (Session.run f renderer source sink).2.state = { q.state with view := .default } ∧
          ({ (Session.run f renderer source sink).2.state with view := r.state.view } = r.state ↔
            q.state.boundingBox = false) := by
  -- the view apart, the participant has the state from before the replay
  obtain ⟨r, hr⟩ := hp.resync hinit hs
  obtain ⟨hmirror, -⟩ := resync_ok hr
  refine ⟨r, hr, hmirror, by rw [hmirror, RenderState.hide_eq_self_iff], ?_⟩
  intro σ f renderer source sink hb
  have hfresh := run_resync hr hb f renderer sink
  refine ⟨hfresh, ?_⟩
  rw [hfresh, hmirror, ← RenderState.hide_eq_self_iff, eq_comm]

/-- The mirror after time steps were chosen and replayed. -/
theorem resync_keeps_time_step :
    ∃ q r, Proxy.sendAll { participant := 0, sink := .unlimited } [.currentFrame 4] = (.ok (), q) ∧
      q.resync = (.ok (), r) ∧ r.state = q.state := by
  have hp : Reliable { participant := 0, sink := .unlimited } := ⟨rfl, Sink.unlimited_reliable⟩
  have hc : ∀ c ∈ [Command.currentFrame 4], c.Framed :=
    List.forall_mem_singleton.2 (Command.IsParameter.framed trivial (by simp))
  obtain ⟨q, hq, -⟩ := hp.sendAll hc
  obtain ⟨r, hr, -, hkeep, -⟩ := resync_keeps_mirror_iff hp rfl hq
  exact ⟨q, r, hq, hr, hkeep.2 (by rw [(sendAll_ok hq).2.2]; rfl)⟩

/-- A bounding box that is shown is lost from the mirror, while a fresh participant shows it. -/
theorem resync_loses_bounding_box :
    ∃ q r, Proxy.sendAll { participant := 0, sink := .unlimited } [.toggleBoundingBox] = (.ok (), q) ∧
      q.resync = (.ok (), r) ∧ q.state.boundingBox = true ∧ r.state.boundingBox = false ∧
      ∀ {σ : Type} (f : Renderer σ) (renderer : σ) (source : Source) (sink : Sink),
        r.sink.accepted = q.sink.accepted ++ source.bytes →
          (Session.run f renderer source sink).2.state.boundingBox = true := by
  have hp : Reliable { participant := 0, sink := .unlimited } := ⟨rfl, Sink.unlimited_reliable⟩
  have hc : ∀ c ∈ [Command.toggleBoundingBox], c.Framed :=
    List.forall_mem_singleton.2 (Command.IsParameter.framed trivial (by simp))
  obtain ⟨q, hq, -⟩ := hp.sendAll hc
  obtain ⟨r, hr⟩ := hp.resync rfl hq
  have hshown : q.state.boundingBox = true := by
    rw [(sendAll_ok hq).2.2]
    rfl
  refine ⟨q, r, hq, hr, hshown, by rw [(resync_ok hr).1], ?_⟩
  intro σ f renderer source sink hb
  rw [run_resync hr hb]
  exact hshown

end Proxy
end SortLast
