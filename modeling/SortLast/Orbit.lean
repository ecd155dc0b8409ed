import SortLast.Cluster.Schedule
import SortLast.CommandLine.CoordinatorOptions
import SortLast.Geometry.Camera

/-!
# Rendering an orbit

The coordinator's program: distribute a synthetic volume, move the camera once around it and write
the selected frames.

* `Orbit.config`, `Orbit.volume`, `Orbit.camera`: what the options mean.
* `Orbit.run`: the whole program, with the frames it writes.
-/

namespace SortLast

/-- Why an orbit ends early. -/
inductive OrbitError where
  | setup (e : ClusterError)
  | cluster (e : ClusterError)
  | fault
  deriving DecidableEq, Repr

/-- How the end of an orbit is reported. -/
def OrbitError.report : OrbitError → Report
  | setup e => e.report.within "cluster setup failed"
  | cluster e => e.report
  | fault => ⟨"a computation had no result", []⟩

/-- A frame that is written. -/
structure SavedFrame where
  frame : Nat
  path : String
  image : Framebuffer Single

/-- What an orbit gives. -/
structure OrbitResult where
  result : Except OrbitError Unit
  saved : List SavedFrame := []

namespace Orbit

/-- The volume that is shown. -/
def volume (o : CoordinatorOptions) : Volume := { dims := o.dims, frames := o.timeSteps }

/-- The configuration of the cluster. -/
def config (o : CoordinatorOptions) : ClusterConfig where
  participants := o.participants
  frameTimeout := o.frameTimeout.toNat
  width := o.width
  height := o.height
  order := o.order
  policy := o.policy
  brickExtent := o.brickExtent
  weights := o.weights

/-- The camera for a frame: on a circle around the volume, a little above its middle. -/
def camera (o : CoordinatorOptions) (frame : Nat) : Camera :=
  let v := volume o
  let aspect := Single.ofNat o.width.toNat / Single.ofNat (max o.height.toNat 1)
  let start : Camera := { position := v.extent.max, target := v.position, aspect }
  let angle := Camera.turn * Single.ofNat frame / Single.ofNat (max o.frames.toNat 1)
  start.orbit v.position (v.size.length * (1.2 : Single)) (v.size.y * (0.3 : Single)) angle

/-- The operations for a frame. -/
def operations (o : CoordinatorOptions) (frame : Nat) : List Operation :=
  (if 1 < o.timeSteps then [.set (.currentFrame (Int32.ofNat (frame % o.timeSteps.toNat)))] else []) ++
    [.render (camera o frame).view]

/-- Carry operations out up to the first failure. -/
def performAll (peers : List Peer) (s : System) : List Operation → Except OrbitError Unit × System
  | [] => (.ok (), s)
  | op :: ops =>
    match s.perform peers op with
    | (none, t) => (.error .fault, t)
    | (some (.frame (.error e)), t) | (some (.done (.error e)), t) => (.error (.cluster e), t)
    | (some _, t) => performAll peers t ops

/-- Render the frames from `frame` on, at most `left` of them; the orbit ends when no participant is
left. -/
def frames (o : CoordinatorOptions) (peers : List Peer) (frame : Nat) :
    (left : Nat) → System → List SavedFrame → OrbitResult
  | 0, s, saved => ⟨(performAll peers s [.shutdown]).1, saved⟩
  | left + 1, s, saved =>
    match performAll peers s (operations o frame) with
    | (.error e, _) => ⟨.error e, saved⟩
    | (.ok (), t) =>
      let saved :=
        if o.capture.selects frame then
          saved ++ [⟨frame, o.capture.path frame, t.coordinator.framebuffer⟩]
        else saved
      if t.liveParticipants.isEmpty then ⟨(performAll peers t [.shutdown]).1, saved⟩
      else frames o peers (frame + 1) left t saved

/-- Set the cluster up and render the orbit. -/
def run (net : Network) (o : CoordinatorOptions) : OrbitResult :=
  match System.connect net (config o) ⟨volume o, [.distributed]⟩ with
  | .error _ => ⟨.error .fault, []⟩
  | .ok (.error e) => ⟨.error (.setup e), []⟩
  | .ok (.ok (peers, s)) => frames o peers 0 o.frames.toNat s []

end Orbit

end SortLast
