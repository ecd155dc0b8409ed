import SortLast.Word

/-!
# Volumes

The description of a voxel grid, possibly with several time steps, and the bricks it is cut into.
The voxels themselves stay with the participants.

* `Volume.extent`: the box of a volume around its position.
* `Volume.validate`: the checks made before a volume is distributed.
* `Brick`: a box owned by one participant at one time step.
-/

namespace SortLast

/-- A voxel grid. -/
structure Volume where
  dims : Vec3 UInt32
  bytesPerChannel : UInt32 := 1
  channels : UInt32 := 1
  /-- Distance between voxel centres along each axis. -/
  spacing : Point := ⟨1, 1, 1⟩
  position : Point := Vec3.zero
  frames : UInt32 := 1
  currentFrame : UInt32 := 0
  deriving DecidableEq, Repr

namespace Volume

/-- Bytes of one time step. -/
def frameBytes (b : Build) (v : Volume) : Except Fault Nat :=
  [v.dims.y, v.dims.z, v.channels, v.bytesPerChannel].foldlM (fun bytes n => b.times bytes n.toNat)
    v.dims.x.toNat

/-- The size in object space. -/
def size (v : Volume) : Point := v.dims.map (fun n => Single.ofNat n.toNat) * v.spacing

/-- The box around the position. -/
def extent (v : Volume) : Box := .ofCenterSize v.position v.size

/-- Check a description: voxels along every axis, a time step, a current one among them, and a solid
extent. -/
def validate (v : Volume) : Except ConfigurationError Unit :=
  if v.dims.any (· == 0) then .error (.noVoxels v.dims)
  else if v.frames = 0 then .error .noTimeSteps
  else if v.frames ≤ v.currentFrame then .error (.timeStepRange v.currentFrame v.frames)
  else if !v.extent.isSolid then .error (.degenerateExtent v.extent)
  else .ok ()

end Volume

/-- A box of the volume that one participant renders at one time step. -/
structure Brick where
  bounds : Box
  participant : UInt64
  frame : UInt32
  deriving DecidableEq, Repr, Inhabited

end SortLast
