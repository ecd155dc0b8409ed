import SortLast.Partition.Tree

/-!
# Bricks

Each leaf of a partition is cut into a regular grid of bricks before it is handed out.

* `BrickLayout`: one brick per leaf, or bricks of a largest size.
* `LeafGrid`: a leaf with its grid, which is the same at all time steps; `LeafGrid.bricks`: its bricks
  at one of them, the first axis varying fastest.
* `BrickLayout.bricksFor`: the bricks of a leaf at a time step.
* `BrickLayout.distribution`: every participant's bricks at every time step.
-/

namespace SortLast

/-- How a leaf is cut into bricks. -/
structure BrickLayout where
  /-- The largest brick; without one a leaf is a single brick. -/
  maxExtent : Option Point
  deriving DecidableEq, Repr

namespace BrickLayout

/-- One brick per leaf. -/
def single : BrickLayout := ⟨none⟩

/-- Bricks of at most the given size. -/
def withMaxExtent (extent : Point) : Except ConfigurationError BrickLayout :=
  if !extent.isFinite || extent.any (fun c => decide (c ≤ 0)) then .error (.badBrickExtent extent)
  else .ok ⟨some extent⟩

/-- The number of cells that cover a length, at least one; `none` if it is infinite. The quotient is
rounded once, in double precision. -/
def cellsAlong (length largest : Single) : Option Nat :=
  match Format.binary64.div length.decode largest.decode with
  -- not a number counts for nothing beside one cell
  | .nan => some 1
  | .infinite s => if s then some 1 else none
  | d => some (max 1 d.ceil.toNat)

/-- The numbers of bricks along the axes of a box, if the box would be cut into at most
`maxBricksPerLeaf` of them. -/
def grid (layout : BrickLayout) (size : Point) : Except ConfigurationError (Vec3 Nat) :=
  match layout.maxExtent with
  | none => .ok ⟨1, 1, 1⟩
  | some largest =>
    match cellsAlong size.x largest.x, cellsAlong size.y largest.y, cellsAlong size.z largest.z with
    | some x, some y, some z =>
      if maxBricksPerLeaf < x * y * z then .error (.tooManyBricks largest size) else .ok ⟨x, y, z⟩
    | _, _, _ => .error (.tooManyBricks largest size)

/-- The coordinate of grid line `i` of `cells` along an axis; the last line is the face itself. -/
def edge (bounds : Box) (axis : Axis) (cells i : Nat) : Single :=
  if i = cells then axis.of bounds.max
  else axis.of bounds.min + axis.of bounds.size * (Single.ofNat i / Single.ofNat cells)

/-- The corner of a grid at the given line numbers. -/
def corner (bounds : Box) (cells lines : Vec3 Nat) : Point :=
  ⟨edge bounds .x cells.x lines.x, edge bounds .y cells.y lines.y, edge bounds .z cells.z lines.z⟩

/-- The cells of a grid, the first axis varying fastest. -/
def cellsOf (cells : Vec3 Nat) : List (Vec3 Nat) :=
  (List.range cells.z).flatMap fun z =>
    (List.range cells.y).flatMap fun y =>
      (List.range cells.x).map fun x => ⟨x, y, z⟩

end BrickLayout

/-- A leaf with the grid that it is cut into. -/
structure LeafGrid where
  leaf : Leaf
  cells : Vec3 Nat
  deriving DecidableEq, Repr

namespace LeafGrid

/-- The box of a cell. -/
def cellBounds (g : LeafGrid) (c : Vec3 Nat) : Box :=
  ⟨BrickLayout.corner g.leaf.bounds g.cells c,
    BrickLayout.corner g.leaf.bounds g.cells ⟨c.x + 1, c.y + 1, c.z + 1⟩⟩

/-- The bricks at a time step. -/
def bricks (g : LeafGrid) (frame : UInt32) : List Brick :=
  (BrickLayout.cellsOf g.cells).map fun c =>
    { bounds := g.cellBounds c, participant := UInt64.ofNat g.leaf.participant, frame }

/-- The bricks at each of the first time steps. -/
def schedule (g : LeafGrid) (frames : UInt32) : List (List Brick) :=
  (List.range frames.toNat).map fun f => g.bricks (UInt32.ofNat f)

end LeafGrid

namespace BrickLayout

/-- Lay the grid of a leaf out. -/
def cut (layout : BrickLayout) (l : Leaf) : Except ConfigurationError LeafGrid := do
  return ⟨l, ← layout.grid l.bounds.size⟩

/-- The bricks of a leaf at a time step. -/
def bricksFor (layout : BrickLayout) (l : Leaf) (frame : UInt32) :
    Except ConfigurationError (List Brick) := do
  return (← layout.cut l).bricks frame

/-- The grids of all leaves, in the order of the participants. -/
def cutAll (layout : BrickLayout) (p : Partition) : Except ConfigurationError (List LeafGrid) :=
  p.leaves.mapM layout.cut

/-- Every participant's bricks, time step by time step. No time step needs no grid. -/
def distribution (layout : BrickLayout) (p : Partition) (frames : UInt32) :
    Except ConfigurationError (List (List (List Brick))) :=
  if frames = 0 then .ok (p.leaves.map fun _ => [])
  else do return (← layout.cutAll p).map fun g => g.schedule frames

end BrickLayout

end SortLast
