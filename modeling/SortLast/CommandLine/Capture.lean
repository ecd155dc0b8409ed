import SortLast.Text.Integer
import SortLast.Text.Words

/-!
# Captured frames

Which frames of a run are written to disk, and under which names.

* `FrameSet.parse`: read a selection such as `0,5-7,10`. What cannot be read selects nothing.
* `Capture.selects`, `Capture.path`.
-/

namespace SortLast

/-- The frames from a first to a last one. -/
structure FrameRange where
  first : Nat
  last : Nat
  deriving DecidableEq, Repr

/-- True if a frame lies in a range. -/
def FrameRange.contains (r : FrameRange) (frame : Nat) : Bool :=
  decide (r.first ≤ frame ∧ frame ≤ r.last)

/-- A set of frames, as ranges that may overlap. -/
structure FrameSet where
  ranges : List FrameRange := []
  deriving DecidableEq, Repr

namespace FrameSet

/-- True if a frame lies in the set. -/
def contains (s : FrameSet) (frame : Nat) : Bool := s.ranges.any fun r => r.contains frame

/-- The frames of two sets. -/
def union (s t : FrameSet) : FrameSet := ⟨s.ranges ++ t.ranges⟩

/-- The frames in increasing order. -/
def toList (s : FrameSet) : List Nat :=
  (s.ranges.flatMap fun r => List.range' r.first (r.last + 1 - r.first)).mergeSort.eraseReps

/-- Frame numbers are below this limit. -/
def numberLimit : Nat := UInt64.size

/-- Read one part of a selection: a frame, or two of them around a hyphen. -/
def parsePart (part : List Char) : Option FrameRange :=
  match Text.splitFirst '-' part with
  | some (front, back) =>
    match Text.parseNat numberLimit front, Text.parseNat numberLimit back with
    | .ok first, .ok last => some ⟨first, last⟩
    | _, _ => none
  | none =>
    match Text.parseNat numberLimit part with
    | .ok frame => some ⟨frame, frame⟩
    | .error _ => none

/-- The part of a range below a number of frames. -/
def cut (frameCount : Nat) (r : FrameRange) : Option FrameRange :=
  if frameCount ≤ r.first then none else some ⟨r.first, min r.last (frameCount - 1)⟩

/-- Read a selection: parts between commas, of which only frames below `frameCount` are kept. -/
def parse (frameCount : Nat) (s : String) : FrameSet :=
  ⟨(Text.splitAll ',' s.toList).filterMap fun part =>
    (parsePart (Text.trim part)).bind (cut frameCount)⟩

end FrameSet

/-- Which frames are written, and where. -/
structure Capture where
  /-- The name under which frames are written; empty if none are. -/
  pattern : String := ""
  /-- The frames to write; without a selection, all of them. -/
  frames : Option FrameSet := none
  deriving DecidableEq, Repr

namespace Capture

/-- Also write the frames of a set. -/
def withFrames (c : Capture) (s : FrameSet) : Capture :=
  { c with frames := some ((c.frames.getD {}).union s) }

/-- True if a frame is to be written. -/
def selects (c : Capture) (frame : Nat) : Bool :=
  !c.pattern.isEmpty && match c.frames with
    | some s => s.contains frame
    | none => true

/-- The name under which a frame is written: its number fills in every placeholder of the pattern. -/
def path (c : Capture) (frame : Nat) : String :=
  String.ofList (Text.substitute (Nat.toDigits 10 frame) c.pattern.toList)

end Capture

end SortLast
