import SortLast.Address.Participant
import SortLast.Cluster.Error
import SortLast.Partition.Tree

/-!
# Cluster configuration

What the coordinator is told: who takes part, how long it waits, the window, and how images are
composited.

* `ClusterConfig.validate`, `ClusterConfig.windowDims`: the checks made before any connection.
-/

namespace SortLast

/-- What is composited for a participant that has no image for a frame. -/
inductive PartialFramePolicy where
  | reuseLastImage
  | skip
  | abort
  deriving DecidableEq, Repr, Inhabited

/-- The configuration of a cluster. -/
structure ClusterConfig where
  participants : List ParticipantAddress
  /-- How long a connection and its handshake may take, in milliseconds. -/
  connectTimeout : Nat := 5000
  /-- How long the images of a frame are waited for, in milliseconds. -/
  frameTimeout : Nat := 10000
  width : UInt32 := 640
  height : UInt32 := 480
  /-- The premultiplied background. -/
  background : Colour := ⟨0, 0, 0, 1⟩
  order : VisitOrder := .backToFront
  policy : PartialFramePolicy := .reuseLastImage
  /-- The largest brick; without one a participant's box is a single brick. -/
  brickExtent : Option Point := none
  /-- The participants' shares of the work; without them, all are equal. -/
  weights : Option (List Single) := none
  deriving DecidableEq, Repr

namespace ClusterConfig

/-- Check a configuration: somebody takes part, no time limit is zero, and there is a weight for each
participant, if there are weights. -/
def validate (c : ClusterConfig) : Except ClusterError Unit :=
  if c.participants.isEmpty then .error .noParticipants
  else if c.frameTimeout = 0 ∨ c.connectTimeout = 0 then .error (.configuration .zeroTimeout)
  else match c.weights with
    | none => .ok ()
    | some ws =>
      if ws.length ≠ c.participants.length then
        .error (.configuration (.weightCount ws.length c.participants.length))
      else .ok ()

/-- The largest side that a window can be sent with. -/
def maxSide : Nat := 2147483647

/-- The sides of a window as they are sent. -/
def windowDims (width height : UInt32) : Except ClusterError (Int32 × Int32) :=
  if maxSide < width.toNat ∨ maxSide < height.toNat then
    .error (.configuration (.windowRange width height))
  else .ok (Int32.ofNat width.toNat, Int32.ofNat height.toNat)

end ClusterConfig

end SortLast
