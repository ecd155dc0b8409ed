import SortLast.Cluster.Setup
import SortLast.Compositing.Compositor

/-!
# The coordinator

The coordinator's own state, what it can be asked to do, and how a frame is put together from the
images that the participants delivered.

* `Operation`, `Reply`: what a coordinator is asked and answers.
* `Gathering.add`: what a participant contributes to a frame under a policy.
* `Coordinator.finish`: composite a frame, or refuse to.
-/

namespace SortLast

/-- A rendering parameter that the coordinator passes on to all participants. -/
inductive RenderSetting where
  | currentFrame (v : Int32)
  | mipMode (v : Int32)
  | objectDirection (v : Point)
  | viewingDirection (v : Point)
  | position (v : Point)
  | roiEnabled (v : Bool)
  | probePosition (v : Point)
  | probeSize (v : Point)
  | toggleBoundingBox
  | transferFunction (t : TransferFunction)
  | quality (v : Single)
  | interpolation (v : Bool)
  deriving DecidableEq, Repr

namespace RenderSetting

/-- The command that passes a parameter on. -/
def command : RenderSetting → Command
  | currentFrame v => .currentFrame v
  | mipMode v => .mipMode v
  | objectDirection v => .objectDirection v
  | viewingDirection v => .viewingDirection v
  | position v => .position v
  | roiEnabled v => .toggleRoi v
  | probePosition v => .roiPosition v
  | probeSize v => .roiSize v
  | toggleBoundingBox => .toggleBoundingBox
  | transferFunction t => .transferFunction t
  | quality v => .quality v
  | interpolation v => .interpolation v

/-- The switch for the interpolation of slices, given by a number: only zero is off. -/
def sliceInterpolation (v : Single) : RenderSetting := interpolation (!v.sameValue 0)

/-- The projection mode, given by a number. -/
def mipModeOf (v : Single) : RenderSetting := mipMode v.toInt32

end RenderSetting

/-- What a coordinator can be asked to do. -/
inductive Operation where
  | render (view : View)
  | set (s : RenderSetting)
  | resize (width height : UInt32)
  | setBackground (c : Colour)
  | shutdown
  deriving DecidableEq, Repr

/-- What a frame was made of. -/
structure FrameStats where
  frame : Nat
  order : List Nat
  eye : Point
  composited : Nat
  reused : Nat
  skipped : Nat
  evicted : List Nat
  lost : List Nat
  deriving DecidableEq, Repr

/-- What a coordinator answers. -/
inductive Reply where
  | frame (r : Except ClusterError FrameStats)
  | done (r : Except ClusterError Unit)

/-- The images that a frame is made of. -/
structure Gathering where
  order : List Nat := []
  images : List Image := []
  composited : Nat := 0
  reused : Nat := 0
  skipped : Nat := 0
  missing : List Nat := []
  deriving DecidableEq, Repr

namespace Gathering

/-- Add what a participant contributes: its image of this frame, if it delivered one, else under the
policy that allows it the latest image it delivered before, else nothing. -/
def add (g : Gathering) (policy : PartialFramePolicy) (participant : Nat) (fresh latest : Option Image) :
    Gathering :=
  match fresh with
  | some image =>
    { g with
      order := g.order ++ [participant]
      images := g.images ++ [image]
      composited := g.composited + 1 }
  | none =>
    let g := { g with missing := g.missing ++ [participant] }
    match policy, latest with
    | .reuseLastImage, some image =>
      { g with
        order := g.order ++ [participant]
        images := g.images ++ [image]
        reused := g.reused + 1 }
    | _, _ => { g with skipped := g.skipped + 1 }

end Gathering

/-- The coordinator's own state. -/
structure Coordinator where
  config : ClusterConfig
  partition : Partition
  proxies : List Proxy
  compositor : Compositor
  framebuffer : Framebuffer Single
  /-- The latest image of every participant that was composited. -/
  lastImages : List (Option Image)
  frameIndex : Nat := 0
  isShutDown : Bool := false

namespace Coordinator

/-- The number of participants, connected or not. -/
def participantCount (c : Coordinator) : Nat := c.proxies.length

/-- The coordinator of a cluster that was set up, if memory can hold its window. -/
def ofPlan (config : ClusterConfig) (plan : Plan) (connections : List Connection) :
    Except Fault Coordinator := do
  let framebuffer ← Framebuffer.allocate config.width config.height plan.depthImages
  return {
    config
    partition := plan.partition
    proxies := connections.map Connection.proxy
    compositor := { order := config.order, depth := plan.depthImages }
    framebuffer
    lastImages := connections.map fun _ => none }

/-- True if a participant's connection is open. -/
def isConnected (c : Coordinator) (participant : Nat) : Bool :=
  match c.proxies[participant]? with
  | some p => p.isConnected
  | none => false

/-- The state that a participant has been brought to. -/
def participantState (c : Coordinator) (participant : Nat) : Option RenderState :=
  c.proxies[participant]?.map Proxy.state

/-- Take a participant's contribution to a frame. Its image, if there is one, is kept. -/
def gather (c : Coordinator) (g : Gathering) (participant : Nat) (fresh : Option Image) :
    Gathering × Coordinator :=
  let latest := c.lastImages[participant]?.join
  let lastImages := match fresh with
    | some image => c.lastImages.set participant (some image)
    | none => c.lastImages
  (g.add c.config.policy participant fresh latest, { c with lastImages })

/-- Why a frame that has to be complete is refused: participants missed it, or were lost, or delivered
nothing. -/
def refusal (frame : Nat) (evicted lost missing : List Nat) : ClusterError :=
  if evicted.isEmpty then .participantLost ((lost.head?.or missing.head?).getD 0)
  else .frameTimeout frame evicted

/-- Composite what was gathered for the current frame, unless the policy refuses a frame with missing
images. -/
def finish (c : Coordinator) (view : View) (evicted lost : List Nat) (g : Gathering) :
    Except Fault (Except ClusterError FrameStats × Coordinator) :=
  if c.config.policy = .abort ∧ g.missing ≠ [] then
    .ok (.error (refusal c.frameIndex evicted lost g.missing), c)
  else do
    let framebuffer ← c.compositor.composite c.framebuffer c.config.background g.images
    let stats : FrameStats := {
      frame := c.frameIndex
      order := g.order
      eye := view.eye
      composited := g.composited
      reused := g.reused
      skipped := g.skipped
      evicted
      lost }
    return (.ok stats, { c with framebuffer })

end Coordinator

end SortLast
