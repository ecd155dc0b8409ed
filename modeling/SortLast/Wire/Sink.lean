import SortLast.Wire.Message

/-!
# Writing messages

A sink accepts bytes piecemeal and may fail at any write or flush. What it does is a script, so that
a law about every sink is a law about every script.

* `Sink.writeAll`: write until all bytes are accepted or the sink fails.
* `Sink.put`: one message in one frame, then a flush.
* `Sink.putAll`: messages in order, up to the first failure.
-/

namespace SortLast

/-- How a sink answers one write of some bytes. A write that is interrupted is made again at once, so an
interruption is no answer. -/
inductive WriteReply where
  | accept (most : Nat)
  | fail (e : IoError)
  deriving DecidableEq, Repr

/-- A sink of bytes. -/
structure Sink where
  /-- The answer to each write, by its number. -/
  writeReply : Nat → WriteReply
  /-- The answer to each flush, by its number. -/
  flushReply : Nat → Option IoError
  writes : Nat := 0
  flushes : Nat := 0
  accepted : List UInt8 := []

namespace Sink

/-- A sink that accepts everything at once. -/
def unlimited : Sink where
  writeReply _ := .accept maxPayload.succ
  flushReply _ := none

/-- What a sink has done with a run of bytes. -/
structure Written where
  taken : List UInt8
  next : Nat
  failure : Option IoError

/-- Offer bytes to a sink until it has accepted all of them or fails. -/
def offer (reply : Nat → WriteReply) (next : Nat) (bytes : List UInt8) : Written :=
  match bytes with
  | [] => ⟨[], next, none⟩
  | b :: rest =>
    match reply next with
    | .fail e => ⟨[], next + 1, some e⟩
    | .accept 0 => ⟨[], next + 1, some .zeroWrite⟩
    | .accept (n + 1) =>
      let w := offer reply (next + 1) (rest.drop n)
      { w with taken := b :: rest.take n ++ w.taken }
  termination_by bytes.length
  decreasing_by simp only [List.length_drop, List.length_cons]; omega

/-- Write all of the given bytes. -/
def writeAll (s : Sink) (bytes : List UInt8) : Except NetError Unit × Sink :=
  let w := offer s.writeReply s.writes bytes
  let s := { s with writes := w.next, accepted := s.accepted ++ w.taken }
  match w.failure with
  | none => (.ok (), s)
  | some e => (.error (.io e), s)

/-- Flush. -/
def flush (s : Sink) : Except NetError Unit × Sink :=
  let t := { s with flushes := s.flushes + 1 }
  match s.flushReply s.flushes with
  | none => (.ok (), t)
  | some e => (.error (.io e), t)

/-- Send one message. One that is too large is not written at all. -/
def put (s : Sink) (m : Message) : Except NetError Unit × Sink :=
  if maxPayload < Message.codec.size m then (.error (.tooLarge (Message.codec.size m)), s)
  else match s.writeAll m.frame with
    | (.ok (), t) => t.flush
    | (.error e, t) => (.error e, t)

/-- Send messages up to the first failure. -/
def putAll (s : Sink) : List Message → Except NetError Unit × Sink
  | [] => (.ok (), s)
  | m :: ms => match s.put m with
    | (.ok (), t) => t.putAll ms
    | (.error e, t) => (.error e, t)

end Sink

end SortLast
