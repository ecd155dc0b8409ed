import SortLast.Proofs.Discipline
import SortLast.Proofs.Mirror

/-!
# The mirror and its participant

A participant reads the bytes that a sending end has put on the stream and applies the commands that it
finds. It ends in the state that the sending end mirrors. Only a command whose write has failed after
its last byte was accepted makes a difference: it was not mirrored, and the participant reads it.

* `Legible`: the commands that can be read from what writes leave on a stream.
* `RenderState.followAll`: the mirror after some writes.
* `Proxy.Mirrors`: the stream and the mirror after some writes; `Proxy.mirrors_perform` for one action,
  `Proxy.mirrors_after` for all.
* `Proxy.mirror_agrees`: the participant and the mirror after any actions.
-/

namespace SortLast

/-! ### What can be read -/

/-- The commands that can be read from the bytes that writes leave on a stream. A write that has failed
leaves a part of its command that cannot be read, or all of it. -/
inductive Legible : List Write → List Command → List UInt8 → Prop where
  | nil : Legible [] [] []
  | cut {c : Command} {e : NetError} {w : List UInt8} (h : Unfinished w) :
      Legible [⟨c, .error e⟩] [] w
  | unflushed {c : Command} {e : NetError} (h : c.Framed) : Legible [⟨c, .error e⟩] [c] c.bytes
  | sent {c : Command} {ws : List Write} {cs : List Command} {bytes : List UInt8} (hc : c.Framed)
      (h : Legible ws cs bytes) : Legible (⟨c, .ok ()⟩ :: ws) (c :: cs) (c.bytes ++ bytes)

namespace RenderState

/-- The mirror after a write. It follows a write that has succeeded. -/
def follow (s : RenderState) (w : Write) : RenderState :=
  match w.result with
  | .ok () => s.apply w.command
  | .error _ => s

/-- The mirror after some writes. -/
def followAll (s : RenderState) (ws : List Write) : RenderState := ws.foldl follow s

theorem followAll_append (s : RenderState) (ws vs : List Write) :
    s.followAll (ws ++ vs) = (s.followAll ws).followAll vs := List.foldl_append

end RenderState

namespace Legible

variable {ws vs : List Write} {cs ds : List Command} {bytes more : List UInt8}

/-- As long as nothing has failed, what further writes leave is read after the rest. -/
theorem append (h : Legible ws cs bytes) (hok : ∀ w ∈ ws, w.result = .ok ())
    (hv : Legible vs ds more) : Legible (ws ++ vs) (cs ++ ds) (bytes ++ more) := by
  induction h with
  | nil => exact hv
  | cut => cases hok _ List.mem_cons_self
  | unflushed => cases hok _ List.mem_cons_self
  | sent hc _ ih =>
    rw [List.cons_append, List.cons_append, List.append_assoc]
    exact .sent hc (ih fun w hw => hok w (List.mem_cons_of_mem _ hw))

/-- The stream holds the commands, and then no whole command more. -/
theorem split (h : Legible ws cs bytes) :
    (∀ c ∈ cs, c.Framed) ∧ ∃ w, Unfinished w ∧ bytes = cs.flatMap Command.bytes ++ w := by
  induction h with
  | nil => exact ⟨by simp, [], .nil, rfl⟩
  | cut hw => exact ⟨by simp, _, hw, rfl⟩
  | unflushed hc => exact ⟨List.forall_mem_singleton.2 hc, [], .nil, by simp⟩
  | sent hc _ ih =>
    obtain ⟨hcs, w, hw, rfl⟩ := ih
    exact ⟨List.forall_mem_cons.2 ⟨hc, hcs⟩, w, hw, by rw [List.flatMap_cons, List.append_assoc]⟩

/-- They are what a receiver reads, in whatever chunks the stream arrives. -/
theorem commands_eq (h : Legible ws cs bytes) {source : Source} (hb : source.bytes = bytes) :
    source.commands.1 = cs := by
  obtain ⟨hcs, w, hw, rfl⟩ := h.split
  rw [Source.commands_eq hcs hw hb]

/-- A receiver that applies the commands follows the mirror, and may be ahead of it by the one command
whose write has failed. -/
theorem applyAll (h : Legible ws cs bytes) (s : RenderState) :
    s.applyAll cs = s.followAll ws ∨ ∃ (sent : List Command) (c : Command) (e : NetError),
      ws = sent.map (⟨·, .ok ()⟩) ++ [⟨c, .error e⟩] ∧ s.applyAll cs = (s.followAll ws).apply c := by
  induction h generalizing s with
  | nil => exact .inl rfl
  | cut => exact .inl rfl
  | unflushed => exact .inr ⟨[], _, _, rfl, rfl⟩
  | @sent c _ _ _ _ _ ih =>
    rcases ih (s.apply c) with heq | ⟨sent, d, e, rfl, heq⟩
    · exact .inl heq
    · exact .inr ⟨c :: sent, d, e, rfl, heq⟩

end Legible

namespace Proxy

/-! ### One write after the other -/

/-- How a sending end has come from `p` to `q` by some writes: what they leave on the stream can be read,
and the mirror has followed them. -/
structure Mirrors (p : Proxy) (ws : List Write) (q : Proxy) : Prop where
  legible : ∃ cs bytes, q.sink.accepted = p.sink.accepted ++ bytes ∧ Legible ws cs bytes
  state : q.state = p.state.followAll ws

namespace Mirrors

variable {p q r : Proxy} {ws vs : List Write} {a b : Bool}

/-- Nothing was written. -/
theorem of_silence (hsink : q.sink = p.sink) (hstate : q.state = p.state) : Mirrors p [] q where
  legible := ⟨[], [], by rw [hsink, List.append_nil], .nil⟩
  state := hstate

theorem trans (h : Mirrors p ws q) (hw : Wrote p ws a q) (h' : Mirrors q vs r)
    (hv : Wrote q vs b r) : Mirrors p (ws ++ vs) r where
  legible := by
    obtain ⟨cs, bytes, hb, hl⟩ := h.legible
    obtain ⟨ds, more, hm, hl'⟩ := h'.legible
    by_cases hq : q.isConnected
    · refine ⟨cs ++ ds, bytes ++ more, by rw [hm, hb, List.append_assoc], ?_⟩
      exact hl.append (hw.connected.1 hq).2.1 hl'
    · -- after a failure nothing is written any more
      obtain ⟨rfl, hs⟩ := hv.silent (Bool.eq_false_of_not_eq_true hq)
      exact ⟨cs, bytes, by rw [hs, hb], by rwa [List.append_nil]⟩
  state := by rw [h'.state, h.state, RenderState.followAll_append]

end Mirrors

/-- What a command leaves on the stream can be read, or holds no whole command. -/
theorem legible_putCommand (s : Sink) (c : Command) :
    ∃ cs bytes, (s.putCommand c).2.accepted = s.accepted ++ bytes ∧
      Legible [⟨c, (s.putCommand c).1⟩] cs bytes := by
  rcases h : s.putCommand c with ⟨e | ⟨⟩, t⟩
  · obtain ⟨w, ht, -, ⟨rfl, hc⟩ | hw⟩ := Sink.putCommand_error h
    · exact ⟨[c], c.bytes, ht, .unflushed hc⟩
    · exact ⟨[], w, ht, .cut hw⟩
  · obtain ⟨hc, ht⟩ := Sink.putCommand_ok h
    exact ⟨[c], c.bytes ++ [], by rw [List.append_nil, ht], .sent hc .nil⟩

theorem mirrors_send (p : Proxy) (c : Command) : Mirrors p (p.writesOfSend c) (p.send c).2 := by
  by_cases hc : p.isConnected
  · have hl := legible_putCommand p.sink c
    rw [writesOfSend, if_pos hc, send_of_open hc]
    rcases h : p.sink.putCommand c with ⟨e | ⟨⟩, t⟩ <;> rw [h] at hl
    · exact ⟨hl, rfl⟩
    · exact ⟨hl, rfl⟩
  · rw [writesOfSend, if_neg hc, send_of_closed (Bool.eq_false_of_not_eq_true hc)]
    exact .of_silence rfl rfl

theorem mirrors_sendAll (p : Proxy) (cs : List Command) :
    Mirrors p (p.writesOfSendAll cs) (p.sendAll cs).2 := by
  induction cs generalizing p with
  | nil => exact .of_silence rfl rfl
  | cons c cs ih =>
    have hs := p.mirrors_send c
    have hw := p.wrote_send c
    rw [writesOfSendAll, sendAll]
    rcases h : p.send c with ⟨e | ⟨⟩, q⟩ <;> rw [h] at hs hw
    · exact hs
    · exact hs.trans hw (ih q) (q.wrote_sendAll cs)

/-- The end of a session changes no parameter, so it need not be mirrored. -/
theorem mirrors_exit (p : Proxy) : Mirrors p (p.writes .exit) p.exit.2 := by
  by_cases hc : p.isConnected
  · have hl := legible_putCommand p.sink .exit
    rw [writes, if_pos hc, exit_of_open hc]
    refine ⟨hl, ?_⟩
    rcases h : p.sink.putCommand .exit with ⟨e | ⟨⟩, t⟩ <;> rfl
  · rw [writes, if_neg hc, exit_of_closed (Bool.eq_false_of_not_eq_true hc)]
    exact .of_silence rfl rfl

theorem mirrors_perform (p : Proxy) (a : Action) : Mirrors p (p.writes a) (p.perform a).2 := by
  cases a with
  | send c => exact p.mirrors_send c
  | putBricks bricks => exact p.mirrors_send (.bricks bricks)
  | resync => exact p.mirrors_sendAll _
  | exit => exact p.mirrors_exit
  | close => exact .of_silence rfl rfl

theorem mirrors_after (p : Proxy) (as : List Action) : Mirrors p (p.history as) (p.after as) := by
  induction as generalizing p with
  | nil => exact .of_silence rfl rfl
  | cons a as ih => exact (p.mirrors_perform a).trans (p.wrote_perform a) (ih _) (wrote_after _ as)

/-! ### The participant -/

/-- Whatever was done with a fresh sending end: a fresh participant that applies all commands that it
reads from the stream, in whatever chunks that arrives, is in the mirrored state as long as no write has
failed. After that it is in the mirrored state, or in that state with the one command applied whose
write has failed. -/
theorem mirror_agrees {p : Proxy} (hp : p.state = .initial) (as : List Action) {source : Source}
    (hb : (p.after as).sink.accepted = p.sink.accepted ++ source.bytes) :
    let mirror := (p.after as).state
    let participant := RenderState.initial.applyAll source.commands.1
    ((∀ w ∈ p.history as, w.result = .ok ()) → participant = mirror) ∧
    (participant = mirror ∨ ∃ (sent : List Command) (c : Command) (e : NetError),
      p.history as = sent.map (⟨·, .ok ()⟩) ++ [⟨c, .error e⟩] ∧ participant = mirror.apply c) := by
  intro mirror participant
  obtain ⟨⟨cs, bytes, hbytes, hl⟩, hstate⟩ := p.mirrors_after as
  have hread : source.commands.1 = cs :=
    hl.commands_eq (List.append_cancel_left (hb.symm.trans hbytes))
  have hahead := hl.applyAll .initial
  rw [← hread, ← hp, ← hstate, hp] at hahead
  refine ⟨fun hok => ?_, hahead⟩
  -- the participant is ahead only if a write has failed
  rcases hahead with heq | ⟨sent, c, e, hhistory, -⟩
  · exact heq
  · cases hok ⟨c, .error e⟩ (by simp [hhistory])

/-- All bytes of the command that shows the bounding box arrive, but their flush fails: the participant
shows the box, the mirror does not, and nothing is sent after that. -/
theorem mirror_agrees_unflushed :
    let sink : Sink := { writeReply := fun _ => .accept 3, flushReply := fun _ => some .zeroWrite }
    let p : Proxy := { participant := 0, sink }
    let q := p.after [.send .toggleBoundingBox, .send (.quality 2)]
    ∃ source : Source, q.sink.accepted = p.sink.accepted ++ source.bytes ∧ q.state = .initial ∧
      RenderState.initial.applyAll source.commands.1 = q.state.apply .toggleBoundingBox := by
  intro sink p q
  let source := Source.ofBytes Command.toggleBoundingBox.bytes
  have hb : q.sink.accepted = p.sink.accepted ++ source.bytes := by decide +kernel
  have hstate : q.state = .initial := by decide +kernel
  have hwrites : (p.history [.send .toggleBoundingBox, .send (.quality 2)]).map Write.command =
      [.toggleBoundingBox] := by decide +kernel
  have hc : ∀ c ∈ [Command.toggleBoundingBox], c.Framed :=
    List.forall_mem_singleton.2 (Command.IsParameter.framed trivial (by simp))
  have hread : source.commands.1 = [.toggleBoundingBox] := by
    rw [Source.commands_eq hc .nil (by simp [source])]
  refine ⟨source, hb, hstate, ?_⟩
  obtain ⟨-, hsame | ⟨sent, c, e, hhistory, hahead⟩⟩ := mirror_agrees (p := p) rfl _ hb
  · -- the participant has read the command, and the mirror has not followed it
    rw [hread, hstate] at hsame
    exact absurd (congrArg RenderState.boundingBox hsame) (by decide)
  · rw [hhistory, List.map_append, List.map_singleton] at hwrites
    obtain rfl : c = .toggleBoundingBox := by
      simpa using congrArg List.getLast? hwrites
    exact hahead

end Proxy
end SortLast
