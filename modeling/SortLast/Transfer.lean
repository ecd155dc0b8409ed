import SortLast.Error

/-!
# Transfer functions

Piecewise linear maps from a normalised scalar value to a colour with opacity.

* `TransferFunction.ofPoints`: from control points in any order, which are checked and sorted.
* `TransferFunction.evaluate`: the colour at a value. A function that came from a peer may hold
  points in any order; then a value may have no colour, and the result is a fault.
* `TransferFunction.table`, `TransferFunction.meanOpacity`.
-/

namespace SortLast

/-- A colour at a scalar value. -/
structure ControlPoint where
  value : Single
  /-- The colour, not premultiplied. -/
  colour : Colour
  deriving DecidableEq, Repr, Inhabited

/-- A piecewise linear transfer function. -/
structure TransferFunction where
  points : List ControlPoint := []
  /-- Number of bands that values are quantised to; below two, values are used as they are. -/
  discrete : UInt32 := 0
  deriving DecidableEq, Repr, Inhabited

/-- The number of leading elements that satisfy a test, if all of them come before all others: a
binary search over `size` elements from `base` on, at most `fuel` halvings. -/
def bisectFrom {α : Type} (test : α → Bool) (xs : List α) (base size : Nat) : Nat → Nat
  | 0 => base
  | fuel + 1 =>
    if size ≤ 1 then
      match xs[base]? with
      | some x => if test x then base + 1 else base
      | none => base
    else
      let half := size / 2
      let next := match xs[base + half]? with
        | some x => if test x then base + half else base
        | none => base
      bisectFrom test xs next (size - half) fuel

/-- The number of leading elements that satisfy a test, found by bisection. -/
def bisect {α : Type} (test : α → Bool) (xs : List α) : Nat :=
  bisectFrom test xs 0 xs.length (xs.length + 1)

namespace TransferFunction

/-- True for the values that a control point may have. -/
def isUnitValue (v : Single) : Bool := v.isFinite && decide (0 ≤ v) && decide (v ≤ 1)

/-- A smooth transfer function through the given points, sorted by value; points of equal value keep
their order. -/
def ofPoints (points : List ControlPoint) : Except DataError TransferFunction :=
  match points.find? (fun p => !isUnitValue p.value) with
  | some bad => .error (.controlPoint bad.value)
  | none =>
    .ok { points := points.mergeSort (fun a b => decide (a.value.totalKey ≤ b.value.totalKey)) }

/-- From transparent black to opaque white. -/
def grayscaleRamp : TransferFunction where
  points := [⟨0, Vec4.zero⟩, ⟨1, Vec4.one⟩]

/-- The function with its values quantised to the given number of bands. -/
def withDiscrete (t : TransferFunction) (bands : UInt32) : TransferFunction :=
  { t with discrete := bands }

/-- The value that is looked up for a value. -/
def quantise (t : TransferFunction) (v : Single) : Single :=
  if 1 < t.discrete then
    let steps := Single.ofNat t.discrete.toNat
    ((v * steps).floor / (steps - 1)).min 1
  else v

/-- The colour between two neighbouring control points. -/
def between (a b : ControlPoint) (v : Single) : Colour :=
  let span := b.value - a.value
  -- points as close as that make a step, also at the first of them
  if span ≤ Single.epsilon then b.colour else a.colour.lerp b.colour ((v - a.value) / span)

/-- The colour at a value: the first point's at or below it, the last point's at or above it, and a
mixture of its two neighbours elsewhere. -/
def evaluate (t : TransferFunction) (value : Single) : Except Fault Colour :=
  let v := t.quantise value
  match t.points.head?, t.points.getLast? with
  | some first, some last =>
    if v ≤ first.value then .ok first.colour
    else if last.value ≤ v then .ok last.colour
    else
      match bisect (fun p => decide (p.value ≤ v)) t.points with
      | 0 => .error .outOfBounds
      | lower + 1 =>
        match t.points[lower]?, t.points[lower + 1]? with
        | some a, some b => .ok (between a b v)
        | _, _ => .error .outOfBounds
  | _, _ => .ok Vec4.zero

/-- The colours at `width` evenly spaced values from 0 to 1, four channels of four bytes each. -/
def table (t : TransferFunction) (width : Nat) : Except Fault (List Colour) :=
  if width = 1 then do return [← t.evaluate 0]
  else do
    checkCapacity width 16
    (List.range width).mapM fun i => t.evaluate (Single.ofNat i / Single.ofNat (width - 1))

/-- Number of samples that the mean opacity is taken over. -/
def opacitySamples : Nat := 256

/-- The opacity averaged over the whole range of values. -/
def meanOpacity (t : TransferFunction) : Except Fault Single := do
  let colours ← t.table opacitySamples
  return colours.foldl (fun sum c => sum + c.w) 0 / Single.ofNat opacitySamples

end TransferFunction

end SortLast
