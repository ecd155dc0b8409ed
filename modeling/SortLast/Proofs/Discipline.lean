import SortLast.Proofs.Wire.Sink
import SortLast.Proxy

/-!
# The discipline of a sending end

A sending end may be used in any way, over a sink that may fail at any write or flush. What it leaves
on the stream is the commands that were sent, whole and in order, and the beginning of at most one
more. From the first failure on it is silent.

* `Write`, `Delivered`: writes of commands with their results, and the bytes that they leave.
* `Proxy.Action`, `Proxy.perform`, `Proxy.after`: uses of a sending end.
* `Proxy.writes`, `Proxy.history`: the writes that are made on the way.
* `Proxy.Wrote`: what is known of a sending end before and after some writes; `Proxy.wrote_perform`
  for one action, `Proxy.wrote_after` for all.
* `Proxy.stream_discipline`: the stream, the connection and the silence after any actions.
-/

namespace SortLast

/-! ### Writes -/

/-- A command that was to be written, and what came of it. -/
structure Write where
  command : Command
  /-- An error if some write or flush has failed. -/
  result : Except NetError Unit

/-- The bytes that writes leave on a stream. Only the last of them may fail, and it may fail anywhere in
its command. -/
inductive Delivered : List Write → List UInt8 → Prop where
  | nil : Delivered [] []
  | failed {c : Command} {e : NetError} {tail : List UInt8} (h : tail <+: c.bytes) :
      Delivered [⟨c, .error e⟩] tail
  | sent {c : Command} {ws : List Write} {bytes : List UInt8} (h : Delivered ws bytes) :
      Delivered (⟨c, .ok ()⟩ :: ws) (c.bytes ++ bytes)

namespace Delivered

variable {ws vs : List Write} {bytes more : List UInt8}

/-- As long as nothing has failed, further writes append to the stream. -/
theorem append (h : Delivered ws bytes) (hok : ∀ w ∈ ws, w.result = .ok ())
    (hv : Delivered vs more) : Delivered (ws ++ vs) (bytes ++ more) := by
  induction h with
  | nil => exact hv
  | failed => cases hok _ List.mem_cons_self
  | sent _ ih =>
    rw [List.cons_append, List.append_assoc]
    exact .sent (ih fun w hw => hok w (List.mem_cons_of_mem _ hw))

/-- The commands that were sent stand on the stream, and then at most a part of one that was not. -/
theorem split (h : Delivered ws bytes) :
    ∃ (sent : List Command) (rest : List Write) (tail : List UInt8),
      ws = sent.map (⟨·, .ok ()⟩) ++ rest ∧ bytes = sent.flatMap Command.bytes ++ tail ∧
        (rest = [] ∧ tail = [] ∨ ∃ c e, rest = [⟨c, .error e⟩] ∧ tail <+: c.bytes) := by
  induction h with
  | nil => exact ⟨[], [], [], rfl, rfl, .inl ⟨rfl, rfl⟩⟩
  | failed hp => exact ⟨[], _, _, rfl, rfl, .inr ⟨_, _, rfl, hp⟩⟩
  | @sent c _ _ _ ih =>
    obtain ⟨sent, rest, tail, rfl, rfl, hrest⟩ := ih
    exact ⟨c :: sent, rest, tail, rfl, by rw [List.flatMap_cons, List.append_assoc], hrest⟩

end Delivered

namespace Proxy

/-! ### Actions -/

/-- A use of a sending end. -/
inductive Action where
  | send (c : Command)
  | putBricks (bricks : List Brick)
  | resync
  | exit
  | close

namespace Action

/-- Whether the connection is closed on purpose. -/
def closes : Action → Bool
  | exit | close => true
  | send _ | putBricks _ | resync => false

theorem any_closes_eq_false (as : List Action) :
    as.any closes = false ↔ exit ∉ as ∧ close ∉ as := by
  induction as with
  | nil => simp
  | cons a as ih => cases a <;> simp [closes, ih]

end Action

/-- Do one thing with a sending end. -/
def perform (p : Proxy) : Action → Except NetError Unit × Proxy
  | .send c => p.send c
  | .putBricks bricks => p.putBricks bricks
  | .resync => p.resync
  | .exit => p.exit
  | .close => (.ok (), p.close)

/-- Do one thing after the other. -/
def after (p : Proxy) : List Action → Proxy
  | [] => p
  | a :: as => (p.perform a).2.after as

/-- The write that sending a command makes. Nothing is written over a closed connection. -/
def writesOfSend (p : Proxy) (c : Command) : List Write :=
  if p.isConnected then [⟨c, (p.send c).1⟩] else []

/-- The writes that sending commands makes, up to the first failure. -/
def writesOfSendAll (p : Proxy) : List Command → List Write
  | [] => []
  | c :: cs => match p.send c with
    | (.ok (), q) => p.writesOfSend c ++ q.writesOfSendAll cs
    | (.error _, _) => p.writesOfSend c

/-- The writes that an action makes. -/
def writes (p : Proxy) : Action → List Write
  | .send c => p.writesOfSend c
  | .putBricks bricks => p.writesOfSend (.bricks bricks)
  | .resync => p.writesOfSendAll p.state.replay
  | .exit => if p.isConnected then [⟨.exit, p.exit.1⟩] else []
  | .close => []

/-- All the writes that actions make. -/
def history (p : Proxy) : List Action → List Write
  | [] => []
  | a :: as => p.writes a ++ (p.perform a).2.history as

theorem after_append (p : Proxy) (as bs : List Action) :
    p.after (as ++ bs) = (p.after as).after bs := by
  induction as generalizing p with
  | nil => rfl
  | cons a as ih => exact ih _

theorem history_append (p : Proxy) (as bs : List Action) :
    p.history (as ++ bs) = p.history as ++ (p.after as).history bs := by
  induction as generalizing p with
  | nil => rfl
  | cons a as ih =>
    rw [List.cons_append, history, ih, ← List.append_assoc]
    rfl

/-! ### Open and closed connections -/

theorem close_isConnected (p : Proxy) : p.close.isConnected = false := rfl

theorem exit_isConnected (p : Proxy) : p.exit.2.isConnected = false := by
  unfold exit
  split <;> rfl

theorem send_of_open {p : Proxy} (h : p.isConnected) (c : Command) :
    p.send c = match p.sink.putCommand c with
      | (.ok (), sink) => (.ok (), { p with sink, state := p.state.apply c })
      | (.error e, sink) => (.error e, { p with sink }.close) := by
  rw [send, h]
  rfl

theorem exit_of_open {p : Proxy} (h : p.isConnected) :
    p.exit = ((p.sink.putCommand .exit).1, { p with sink := (p.sink.putCommand .exit).2 }.close) := by
  rw [exit, h]
  rfl

theorem send_of_closed {p : Proxy} (h : p.isConnected = false) (c : Command) :
    p.send c = (.error .closed, p) := by
  rw [send, h]
  rfl

theorem exit_of_closed {p : Proxy} (h : p.isConnected = false) : p.exit = (.ok (), p.close) := by
  rw [exit, h]
  rfl

/-- A connection that is closed stays closed. -/
theorem isConnected_of_send {p : Proxy} {c : Command} (h : (p.send c).2.isConnected) :
    p.isConnected := by
  by_contra hc
  rw [send_of_closed (Bool.eq_false_of_not_eq_true hc)] at h
  exact hc h

/-! ### One write after the other -/

/-- How a sending end has come from `p` to `q` by some writes, where `closed` tells whether it was closed
on purpose. -/
structure Wrote (p : Proxy) (ws : List Write) (closed : Bool) (q : Proxy) : Prop where
  /-- The writes are what is new on the stream. -/
  delivered : ∃ bytes, q.sink.accepted = p.sink.accepted ++ bytes ∧ Delivered ws bytes
  /-- The connection is open if it was before and nothing has gone wrong. -/
  connected : q.isConnected ↔ p.isConnected ∧ (∀ w ∈ ws, w.result = .ok ()) ∧ closed = false
  /-- A connection that was closed before has not been used. -/
  silent : p.isConnected = false → ws = [] ∧ q.sink = p.sink

namespace Wrote

variable {p q r : Proxy} {ws vs : List Write} {a b : Bool}

theorem refl (p : Proxy) : Wrote p [] false p where
  delivered := ⟨[], (List.append_nil _).symm, .nil⟩
  connected := by simp
  silent _ := ⟨rfl, rfl⟩

theorem trans (h : Wrote p ws a q) (h' : Wrote q vs b r) : Wrote p (ws ++ vs) (a || b) r where
  delivered := by
    obtain ⟨bytes, hb, hd⟩ := h.delivered
    obtain ⟨more, hm, hd'⟩ := h'.delivered
    by_cases hq : q.isConnected
    · refine ⟨bytes ++ more, by rw [hm, hb, List.append_assoc], ?_⟩
      exact hd.append (h.connected.1 hq).2.1 hd'
    · -- after a failure nothing is written any more
      obtain ⟨rfl, hs⟩ := h'.silent (Bool.eq_false_of_not_eq_true hq)
      exact ⟨bytes, by rw [hs, hb], by rwa [List.append_nil]⟩
  connected := by
    rw [h'.connected, h.connected, List.forall_mem_append, Bool.or_eq_false_iff]
    tauto
  silent hp := by
    obtain ⟨rfl, hs⟩ := h.silent hp
    have hq : q.isConnected = false := by
      rw [← Bool.not_eq_true, h.connected, hp]
      simp
    obtain ⟨rfl, hs'⟩ := h'.silent hq
    exact ⟨rfl, hs'.trans hs⟩

end Wrote

theorem wrote_close (p : Proxy) : Wrote p [] true p.close where
  delivered := (Wrote.refl p).delivered
  connected := by simp [close_isConnected]
  silent _ := ⟨rfl, rfl⟩

/-- A sink takes a whole command or a part of it, and says which. -/
theorem delivered_putCommand (s : Sink) (c : Command) :
    ∃ bytes, (s.putCommand c).2.accepted = s.accepted ++ bytes ∧
      Delivered [⟨c, (s.putCommand c).1⟩] bytes := by
  rcases h : s.putCommand c with ⟨e | ⟨⟩, t⟩
  · obtain ⟨tail, ht, hp, -⟩ := Sink.putCommand_error h
    exact ⟨tail, ht, .failed hp⟩
  · obtain ⟨-, ht⟩ := Sink.putCommand_ok h
    exact ⟨c.bytes ++ [], by rw [List.append_nil, ht], .sent .nil⟩

theorem wrote_send (p : Proxy) (c : Command) : Wrote p (p.writesOfSend c) false (p.send c).2 := by
  by_cases hc : p.isConnected
  · have hd := delivered_putCommand p.sink c
    rw [writesOfSend, if_pos hc, send_of_open hc]
    rcases h : p.sink.putCommand c with ⟨e | ⟨⟩, t⟩ <;> rw [h] at hd
    · exact ⟨hd, by simp [close_isConnected], fun h => by cases hc.symm.trans h⟩
    · exact ⟨hd, by simp [isConnected], fun h => by cases hc.symm.trans h⟩
  · rw [writesOfSend, if_neg hc, send_of_closed (Bool.eq_false_of_not_eq_true hc)]
    exact .refl p

theorem wrote_sendAll (p : Proxy) (cs : List Command) :
    Wrote p (p.writesOfSendAll cs) false (p.sendAll cs).2 := by
  induction cs generalizing p with
  | nil => exact .refl p
  | cons c cs ih =>
    have hs := p.wrote_send c
    rw [writesOfSendAll, sendAll]
    rcases h : p.send c with ⟨e | ⟨⟩, q⟩ <;> rw [h] at hs
    · exact hs
    · exact hs.trans (ih q)

theorem wrote_exit (p : Proxy) : Wrote p (p.writes .exit) true p.exit.2 := by
  by_cases hc : p.isConnected
  · have hd := delivered_putCommand p.sink .exit
    rw [writes, if_pos hc, exit_of_open hc]
    exact ⟨hd, by simp [close_isConnected], fun h => by cases hc.symm.trans h⟩
  · rw [writes, if_neg hc, exit_of_closed (Bool.eq_false_of_not_eq_true hc)]
    exact p.wrote_close

theorem wrote_perform (p : Proxy) (a : Action) : Wrote p (p.writes a) a.closes (p.perform a).2 := by
  cases a with
  | send c => exact p.wrote_send c
  | putBricks bricks => exact p.wrote_send (.bricks bricks)
  | resync => exact p.wrote_sendAll _
  | exit => exact p.wrote_exit
  | close => exact p.wrote_close

theorem wrote_after (p : Proxy) (as : List Action) :
    Wrote p (p.history as) (as.any Action.closes) (p.after as) := by
  induction as generalizing p with
  | nil => exact .refl p
  | cons a as ih => exact (p.wrote_perform a).trans (ih _)

/-! ### Any use of a sending end -/

/-- Whatever was done with a sending end: the stream has grown by the commands that were sent, and by a
part of at most one that was not; the connection is open if it was, every write has succeeded, and it
was not closed on purpose. Once it is closed it stays so, nothing more is written, no command can be sent
and there is nothing to stop. -/
theorem stream_discipline (p : Proxy) (as : List Action) :
    (∃ (sent : List Command) (rest : List Write) (tail : List UInt8),
      p.history as = sent.map (⟨·, .ok ()⟩) ++ rest ∧
        (p.after as).sink.accepted = p.sink.accepted ++ (sent.flatMap Command.bytes ++ tail) ∧
        (rest = [] ∧ tail = [] ∨ ∃ c e, rest = [⟨c, .error e⟩] ∧ tail <+: c.bytes)) ∧
    ((p.after as).isConnected ↔
      p.isConnected ∧ (∀ w ∈ p.history as, w.result = .ok ()) ∧ .exit ∉ as ∧ .close ∉ as) ∧
    ((p.after as).isConnected = false → ∀ bs : List Action,
      (p.after (as ++ bs)).isConnected = false ∧
        (p.after (as ++ bs)).sink = (p.after as).sink ∧
        p.history (as ++ bs) = p.history as ∧
        (∀ c, ((p.after (as ++ bs)).send c).1 = .error .closed) ∧
        (p.after (as ++ bs)).exit.1 = .ok ()) := by
  have h := p.wrote_after as
  refine ⟨?_, ?_, fun hclosed bs => ?_⟩
  · obtain ⟨bytes, hb, hd⟩ := h.delivered
    obtain ⟨sent, rest, tail, hws, rfl, hrest⟩ := hd.split
    exact ⟨sent, rest, tail, hws, hb, hrest⟩
  · rw [h.connected, Action.any_closes_eq_false]
  · have hb := (p.after as).wrote_after bs
    obtain ⟨hhistory, hsink⟩ := hb.silent hclosed
    have hq : (p.after (as ++ bs)).isConnected = false := by
      rw [after_append, ← Bool.not_eq_true, hb.connected, hclosed]
      simp
    refine ⟨hq, by rw [after_append, hsink], ?_, ?_, ?_⟩
    · rw [history_append, hhistory, List.append_nil]
    · intro c
      rw [send_of_closed hq]
    · rw [exit_of_closed hq]

/-- More bricks than fit into a frame: their tag has been sent when that is found out, and it remains the
last thing on the stream. -/
theorem stream_discipline_oversized :
    ∃ (bricks : List Brick) (p : Proxy), bricks.length = 2000000 ∧
      (p.putBricks bricks).1 = .error (.tooLarge 72000012) ∧
      (p.after [.putBricks bricks, .send .toggleBoundingBox, .exit]).sink.accepted =
        (Message.reason .bricks).frame ∧
      (p.after [.putBricks bricks, .send .toggleBoundingBox, .exit]).isConnected = false := by
  obtain ⟨bricks, hlength⟩ : ∃ bricks : List Brick, bricks.length = 2000000 :=
    ⟨List.replicate _ default, List.length_replicate⟩
  have hsize : Message.codec.size (.bricks bricks) = 72000012 := by rw [Message.bricks_size, hlength]
  have hlarge : ¬ (Message.bricks bricks).Framed := by
    rw [Message.Framed, hsize]
    decide
  obtain ⟨t, ht, ha⟩ := Sink.unlimited_reliable.putCommand_oversized (c := .bricks bricks) rfl hlarge
  let p : Proxy := { participant := 0, sink := .unlimited }
  have hput : p.putBricks bricks = (.error (.tooLarge 72000012), { p with sink := t }.close) := by
    rw [putBricks, send, ht, hsize]
    rfl
  obtain ⟨-, -, hsilent⟩ := p.stream_discipline [.putBricks bricks]
  have hafter : p.after [.putBricks bricks] = ({ p with sink := t } : Proxy).close :=
    congrArg Prod.snd hput
  obtain ⟨hclosed, hsink, -⟩ := hsilent (by rw [hafter, close_isConnected])
    [.send .toggleBoundingBox, .exit]
  refine ⟨bricks, p, hlength, by rw [hput], ?_, hclosed⟩
  exact (congrArg Sink.accepted (hsink.trans (congrArg Proxy.sink hafter))).trans ha

end Proxy
end SortLast
