import SortLast.Geometry.Box

/-!
# Causes of failure

Every failure is a value that names its cause; the wording is a function of the cause.

* `IoError`: a failure of a stream or socket.
* `ConfigurationError`: why a volume, a partition or a configuration is unusable.
* `DataError`: why an image or a transfer function is malformed.
* `Failure`: any of the three.
* `Fault`: a computation that has no result at all; `checkCapacity` finds the buffers beyond memory.
-/

namespace SortLast

/-- The kinds of stream failures that are told apart. -/
inductive IoKind where
  /-- The stream ended inside a message. -/
  | unexpectedEof
  | connectionReset
  | connectionAborted
  | brokenPipe
  | notConnected
  | writeZero
  | connectionRefused
  | networkUnreachable
  | timedOut
  | invalidInput
  | other
  deriving DecidableEq, Repr, Inhabited

/-- A failure of a stream or socket. -/
structure IoError where
  kind : IoKind
  text : String
  deriving DecidableEq, Repr, Inhabited

namespace IoError

/-- True if the failure means that the connection is gone. -/
def isDisconnect (e : IoError) : Bool :=
  match e.kind with
  | .unexpectedEof | .connectionReset | .connectionAborted | .brokenPipe | .notConnected => true
  | _ => false

/-- A sink that accepts no byte of a non-empty write. -/
def zeroWrite : IoError := ⟨.writeZero, "failed to write whole buffer"⟩

/-- A host without a network. -/
def networkUnreachable : IoError := ⟨.networkUnreachable, "Network is unreachable (os error 101)"⟩

/-- A host that nobody knows. -/
def unknownHost : IoError :=
  ⟨.other, "failed to lookup address information: Temporary failure in name resolution"⟩

/-- An address at which nobody listens. -/
def connectionRefused : IoError := ⟨.connectionRefused, "Connection refused (os error 111)"⟩

/-- A peer that does not answer in time. -/
def noAnswer : IoError := ⟨.timedOut, "Resource temporarily unavailable (os error 11)"⟩

/-- A port that is kept for the host itself. -/
def reservedPort : IoError := ⟨.other, "Permission denied (os error 13)"⟩

/-- An address of no interface. -/
def noInterface : IoError := ⟨.invalidInput, "Invalid argument (os error 22)"⟩

/-- An address that is not the host's own. -/
def foreignAddress : IoError := ⟨.other, "Cannot assign requested address (os error 99)"⟩

/-- A text that is no address to listen on. -/
def badListenAddress : IoError := ⟨.invalidInput, "invalid socket address"⟩

/-- A text whose port is no port. -/
def badListenPort : IoError := ⟨.invalidInput, "invalid port value"⟩

end IoError

/-- Why a volume, a partition or a configuration is unusable. -/
inductive ConfigurationError where
  | noVoxels (dims : Vec3 UInt32)
  | noTimeSteps
  | timeStepRange (current frames : UInt32)
  | degenerateExtent (extent : Box)
  | noShares
  | badWeight (weight : Single)
  | emptyShare (participant : Nat)
  | badBrickExtent (extent : Point)
  | tooManyBricks (extent size : Point)
  | badAddress (text : String)
  | zeroTimeout
  | weightCount (weights participants : Nat)
  | windowRange (width height : UInt32)
  | reported (text : String)
  deriving DecidableEq, Repr

/-- The most bricks that one leaf may be cut into for one time step. -/
def maxBricksPerLeaf : Nat := 65536

/-- Three counts in brackets. -/
def Vec3.countText (v : Vec3 UInt32) : String :=
  "[" ++ toString v.x.toNat ++ ", " ++ toString v.y.toNat ++ ", " ++ toString v.z.toNat ++ "]"

/-- The wording of a configuration error. -/
def ConfigurationError.message : ConfigurationError → String
  | .noVoxels dims => "volume has zero voxels along an axis: " ++ dims.countText
  | .noTimeSteps => "volume has no time steps"
  | .timeStepRange current frames =>
    "current frame " ++ toString current.toNat ++ " out of range for " ++ toString frames.toNat ++
      " time steps"
  | .degenerateExtent extent => "volume extent is degenerate: " ++ extent.markedText
  | .noShares => "cannot partition a volume among zero participants"
  | .badWeight w => "participant weight must be positive and finite, got " ++ w.text
  | .emptyShare p => "participant " ++ toString p ++ " would receive an empty box"
  | .badBrickExtent extent => "brick extent must be positive, got " ++ extent.text
  | .tooManyBricks extent size =>
    "brick extent " ++ extent.text ++ " cuts a " ++ size.text ++ " box into more than " ++
      toString maxBricksPerLeaf ++ " bricks"
  | .badAddress text => "invalid participant address `" ++ text ++ "`"
  | .zeroTimeout => "timeouts must be non-zero"
  | .weightCount weights participants =>
    toString weights ++ " weights given for " ++ toString participants ++ " participants"
  | .windowRange width height =>
    "window size " ++ toString width.toNat ++ "x" ++ toString height.toNat ++ " is out of range"
  | .reported text => text

/-- Why an image or a transfer function is malformed. -/
inductive DataError where
  | controlPoint (value : Single)
  | colourSize (held expected : Nat) (width height : UInt32)
  | depthSize (held expected : Nat)
  | reported (text : String)
  deriving DecidableEq, Repr

/-- The wording of a data error. -/
def DataError.message : DataError → String
  | .controlPoint v => "control point value " ++ v.text ++ " outside [0, 1]"
  | .colourSize held expected width height =>
    "color buffer holds " ++ toString held ++ " bytes, expected " ++ toString expected ++ " for " ++
      toString width.toNat ++ "x" ++ toString height.toNat
  | .depthSize held expected =>
    "depth buffer holds " ++ toString held ++ " samples, expected " ++ toString expected
  | .reported text => text

/-- Any failure of the engine itself. -/
inductive Failure where
  | io (e : IoError)
  | configuration (e : ConfigurationError)
  | data (e : DataError)
  deriving DecidableEq, Repr

/-- The wording of a failure. -/
def Failure.message : Failure → String
  | .io e => "I/O error: " ++ e.text
  | .configuration e => "Invalid configuration: " ++ e.message
  | .data e => "Invalid data: " ++ e.message

/-- The configuration error that a failure amounts to for the coordinator: its cause, or its whole
wording if it is of another kind. -/
def Failure.asConfiguration : Failure → ConfigurationError
  | .configuration e => e
  | e => .reported e.message

/-- A computation that has no result: an index beyond its buffer, a buffer beyond the address space, or
a product beyond a machine word. -/
inductive Fault where
  | outOfBounds
  | capacity
  | overflow
  deriving DecidableEq, Repr, Inhabited

/-- The most bytes that one buffer can have, one less than half the address space. -/
def maxBufferBytes : Nat := 0x7fffffffffffffff

/-- Refuse a buffer of `count` elements that no memory can hold. -/
def checkCapacity (count elementBytes : Nat) : Except Fault Unit :=
  if maxBufferBytes < count * elementBytes then .error .capacity else .ok ()

end SortLast
