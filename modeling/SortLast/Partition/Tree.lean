import SortLast.Volume

/-!
# Binary space partition

The volume's extent is cut by axis-parallel planes into one box per participant, with volumes in
proportion to the participants' weights. A node with several participants gives the lower half of
them its lower part.

* `Tree`: the cuts; `Tree.divide` makes them.
* `Partition.ofWeights`, `Partition.even`: a checked partition.
* `Partition.ordered`: the participants in visibility order from an eye point.
* `Partition.locate`: whose box a point lies in.
-/

namespace SortLast

/-- In which direction a traversal visits boxes, seen from the eye. -/
inductive VisitOrder where
  /-- The farthest box first. -/
  | backToFront
  /-- The nearest box first. -/
  | frontToBack
  deriving DecidableEq, Repr, Inhabited

/-- One participant's box. -/
structure Leaf where
  participant : Nat
  bounds : Box
  deriving DecidableEq, Repr

/-- The cuts of a partition. -/
inductive Tree where
  | leaf (l : Leaf)
  | node (axis : Axis) (position : Single) (bounds : Box) (lower upper : Tree)
  deriving DecidableEq, Repr

namespace Tree

/-- The box that a tree covers. -/
def bounds : Tree → Box
  | leaf l => l.bounds
  | node _ _ b _ _ => b

/-- The number of cuts on the longest way down. -/
def depth : Tree → Nat
  | leaf _ => 0
  | node _ _ _ lower upper => 1 + max lower.depth upper.depth

/-- The leaves, lower parts first. -/
def leaves : Tree → List Leaf
  | leaf l => [l]
  | node _ _ _ lower upper => lower.leaves ++ upper.leaves

/-- The leaves as seen from `eye`. An eye on a cut counts as below it. -/
def visit (eye : Point) (order : VisitOrder) : Tree → List Leaf
  | leaf l => [l]
  | node axis position _ lower upper =>
    let eyeBelow := decide (axis.of eye ≤ position)
    match order, eyeBelow with
    | .frontToBack, true | .backToFront, false => lower.visit eye order ++ upper.visit eye order
    | .frontToBack, false | .backToFront, true => upper.visit eye order ++ lower.visit eye order

/-- The participant on whose side of every cut a point lies; a point on a cut counts as below. -/
def descend (p : Point) : Tree → Nat
  | leaf l => l.participant
  | node axis position _ lower upper =>
    if axis.of p ≤ position then lower.descend p else upper.descend p

/-- The sum of weights in double precision, where it cannot overflow. -/
def totalWeight (weights : List Single) : Datum :=
  weights.foldl (fun sum w => Format.binary64.add sum w.decode) (.finite false 0 (-1074))

/-- The share of the first weights in all of them. -/
def lowerFraction (lower upper : List Single) : Single :=
  let a := totalWeight lower
  .encode (Format.binary64.div a (Format.binary64.add a (totalWeight upper)))

/-- Where a box is cut so that its lower part has the given fraction of its extent. -/
def cutPosition (b : Box) (axis : Axis) (fraction : Single) : Single :=
  axis.of b.min + axis.of b.size * fraction

/-- A box that is not cut, if there is something in it. -/
def ofBox (b : Box) (participant : Nat) : Except ConfigurationError Tree :=
  if b.isSolid then .ok (leaf ⟨participant, b⟩) else .error (.emptyShare participant)

/-- Cut a box among the participants from `first` on, one for each weight, across its longest axis,
up to the first participant that gets an empty box. -/
def divide (b : Box) (first : Nat) (weights : List Single) : Except ConfigurationError Tree :=
  if weights.length ≤ 1 then ofBox b first
  else do
    let count := weights.length / 2
    let axis := b.longestAxis
    let position := cutPosition b axis (lowerFraction (weights.take count) (weights.drop count))
    let parts := b.split axis position
    let lower ← divide parts.1 first (weights.take count)
    let upper ← divide parts.2 (first + count) (weights.drop count)
    return node axis position b lower upper
  termination_by weights.length

end Tree

/-- A partition of a volume's extent into one solid box per participant. -/
structure Partition where
  root : Tree
  deriving DecidableEq, Repr

namespace Partition

/-- Partition an extent in proportion to the participants' weights. -/
def ofWeights (extent : Box) (weights : List Single) : Except ConfigurationError Partition :=
  if weights.isEmpty then .error .noShares
  else match weights.find? (fun w => !w.isFinite || decide (w ≤ 0)) with
    | some w => .error (.badWeight w)
    | none =>
      if !extent.isSolid then .error (.degenerateExtent extent)
      else (Tree.divide extent 0 weights).map Partition.mk

/-- Partition an extent into boxes of equal weight, if memory can hold the weights, four bytes
each. -/
def even (extent : Box) (participants : Nat) : Except Fault (Except ConfigurationError Partition) := do
  checkCapacity participants 4
  return ofWeights extent (List.replicate participants 1)

/-- The partitioned box. -/
def extent (p : Partition) : Box := p.root.bounds

/-- The number of cuts on the longest way down. -/
def depth (p : Partition) : Nat := p.root.depth

/-- The leaves in the order of their participants. -/
def leaves (p : Partition) : List Leaf := p.root.leaves

/-- The number of participants. -/
def participantCount (p : Partition) : Nat := p.leaves.length

/-- A participant's leaf. -/
def leaf? (p : Partition) (participant : Nat) : Option Leaf := p.leaves[participant]?

/-- The participant whose box a point belongs to; a point on a cut belongs to the lower side. -/
def locate (p : Partition) (point : Point) : Option Nat :=
  if p.extent.contains point then some (p.root.descend point) else none

/-- The leaves in visibility order. -/
def visit (p : Partition) (eye : Point) (order : VisitOrder) : List Leaf := p.root.visit eye order

/-- The participants in visibility order. -/
def ordered (p : Partition) (eye : Point) (order : VisitOrder) : List Nat :=
  (p.visit eye order).map Leaf.participant

end Partition

end SortLast
