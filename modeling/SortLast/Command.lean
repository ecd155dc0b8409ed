import SortLast.Geometry.View
import SortLast.Wire.Sink
import SortLast.Wire.Source

/-!
# Commands

What the coordinator tells a participant: a tag and the payload that the tag announces, each a
message of its own.

* `Command.messages`: how a command is sent.
* `Sink.putCommand`, `Reading.command`: sending and receiving one.
* `Source.commands`: all commands up to the first failure.
-/

namespace SortLast

/-- A command to a participant. -/
inductive Command where
  | matrix (projection modelview : Matrix)
  | resize (width height : Int32)
  | currentFrame (v : Int32)
  | mipMode (v : Int32)
  | objectDirection (v : Point)
  | viewingDirection (v : Point)
  | position (v : Point)
  | toggleRoi (v : Bool)
  | roiPosition (v : Point)
  | roiSize (v : Point)
  /-- Show the bounding box if it is hidden, hide it if it is shown. -/
  | toggleBoundingBox
  | transferFunction (t : TransferFunction)
  | quality (v : Single)
  | interpolation (v : Bool)
  | bricks (bs : List Brick)
  | exit
  deriving DecidableEq, Repr

namespace Command

/-- The tag of a command. -/
def reason : Command → Reason
  | matrix .. => .matrix
  | resize .. => .resize
  | currentFrame _ => .currentFrame
  | mipMode _ => .mipMode
  | objectDirection _ => .objectDirection
  | viewingDirection _ => .viewingDirection
  | position _ => .position
  | toggleRoi _ => .toggleRoi
  | roiPosition _ => .roiPosition
  | roiSize _ => .roiSize
  | toggleBoundingBox => .toggleBoundingBox
  | transferFunction _ => .transferFunction
  | quality _ => .quality
  | interpolation _ => .interpolation
  | bricks _ => .bricks
  | exit => .exit

/-- The messages that carry the payload of a command. -/
def payload : Command → List Message
  | matrix p m => [.matrix p, .matrix m]
  | resize w h => [.winDims w h]
  | currentFrame v | mipMode v => [.int32 v]
  | objectDirection v | viewingDirection v | position v | roiPosition v | roiSize v => [.vector3 v]
  | toggleRoi v | interpolation v => [.bool v]
  | transferFunction t => [.transferFunction t]
  | quality v => [.float32 v]
  | bricks bs => [.bricks bs]
  | toggleBoundingBox | exit => []

/-- The messages that a command is sent as. -/
def messages (c : Command) : List Message := .reason c.reason :: c.payload

/-- The bytes of a command on a stream. -/
def bytes (c : Command) : List UInt8 := c.messages.flatMap Message.frame

/-- The command that sends a view. -/
def ofView (v : View) : Command := matrix v.projection v.modelview

end Command

/-- Send a command: its tag, then its payload. -/
def Sink.putCommand (s : Sink) (c : Command) : Except NetError Unit × Sink := s.putAll c.messages

/-- Read a tag and the payload that it announces. -/
def Reading.command : Reading Command := do
  match ← reason with
  | .matrix => return .matrix (← matrix) (← matrix)
  | .resize => let (w, h) ← winDims; return .resize w h
  | .currentFrame => return .currentFrame (← int32)
  | .mipMode => return .mipMode (← int32)
  | .objectDirection => return .objectDirection (← vector3)
  | .viewingDirection => return .viewingDirection (← vector3)
  | .position => return .position (← vector3)
  | .toggleRoi => return .toggleRoi (← bool)
  | .roiPosition => return .roiPosition (← vector3)
  | .roiSize => return .roiSize (← vector3)
  | .toggleBoundingBox => return .toggleBoundingBox
  | .transferFunction => return .transferFunction (← transferFunction)
  | .quality => return .quality (← float32)
  | .interpolation => return .interpolation (← bool)
  | .bricks => return .bricks (← bricks)
  | .exit => return .exit

/-! ### Reading uses up the stream -/

/-- A read that takes at least four bytes off the stream whenever it succeeds. -/
def Reading.Consumes {α : Type} (r : Reading α) : Prop :=
  ∀ s a t, r s = (.ok a, t) → t.size + 4 ≤ s.size

namespace Reading

variable {α β : Type}

/-- The stream that a step leaves is handed to the next one. -/
theorem bind_ok {r : Reading α} {f : α → Reading β} {s t : Source} {b : β}
    (h : (r >>= f) s = (.ok b, t)) : ∃ a u, r s = (.ok a, u) ∧ f a u = (.ok b, t) := by
  change (ExceptT.bindCont f (r s).1 (r s).2 : Except NetError β × Source) = _ at h
  rcases hr : r s with ⟨res, u⟩
  rw [hr] at h
  cases res with
  | ok a => exact ⟨a, u, rfl, h⟩
  | error e => cases h

theorem pure_ok {a b : α} {s t : Source} (h : (pure a : Reading α) s = (.ok b, t)) :
    a = b ∧ s = t := by
  change ((.ok a, s) : Except NetError α × Source) = _ at h
  simpa using h

theorem consumes_message : message.Consumes := fun _ _ _ h => Source.readMessage_size h

/-- A read goes on consuming whatever follows, as long as that does not give bytes back. -/
theorem Consumes.bind {r : Reading α} {f : α → Reading β} (hr : r.Consumes)
    (hf : ∀ a s b t, f a s = (.ok b, t) → t.size ≤ s.size) : (r >>= f).Consumes := by
  intro s b t h
  obtain ⟨a, u, h1, h2⟩ := bind_ok h
  have := hr s a u h1
  have := hf a u b t h2
  omega

theorem consumes_expect (kind : Message.Kind) (select : Message → Option α) :
    (expect kind select).Consumes := by
  refine consumes_message.bind ?_
  intro m s b t h
  cases hm : select m with
  | some a => rw [hm] at h; exact Nat.le_of_eq (congrArg Source.size (pure_ok h).2.symm)
  | none => rw [hm] at h; cases h

/-- A read that succeeds never gives bytes back. -/
theorem Consumes.map {r : Reading α} (hr : r.Consumes) (f : α → β) {s t : Source} {b : β}
    (h : (r >>= fun a => pure (f a)) s = (.ok b, t)) : t.size ≤ s.size := by
  obtain ⟨a, u, h1, h2⟩ := bind_ok h
  have := hr s a u h1
  rw [← (pure_ok h2).2]
  omega

theorem consumes_command : command.Consumes := by
  refine (consumes_expect _ _).bind ?_
  intro r s c t h
  cases r with
  | toggleBoundingBox => exact Nat.le_of_eq (congrArg Source.size (pure_ok h).2.symm)
  | exit => exact Nat.le_of_eq (congrArg Source.size (pure_ok h).2.symm)
  | matrix =>
    obtain ⟨p, u, h1, h2⟩ := bind_ok h
    have := consumes_expect _ _ s p u h1
    have := (consumes_expect _ _).map _ h2
    omega
  | _ => exact (consumes_expect _ _).map _ h

end Reading

namespace Source

/-- All commands up to the first failure, and that failure. -/
def commands (s : Source) : List Command × NetError :=
  match h : Reading.command s with
  | (.ok c, t) =>
    have := Reading.consumes_command s c t h
    let (cs, e) := commands t
    (c :: cs, e)
  | (.error e, _) => ([], e)
  termination_by s.size

end Source

end SortLast
