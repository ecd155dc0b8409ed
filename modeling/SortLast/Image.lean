import SortLast.Error
import SortLast.Geometry.Rect
import SortLast.Volume

/-!
# Partial images

What a participant renders for one frame: premultiplied pixels of eight bits per channel over a
rectangle of the window, row by row from the top, with an optional depth per pixel. An image may come
from a peer, so its buffers need not fit its rectangle until `Image.validate` has said so.

* `Image.validate`: the check of the buffer sizes, done in machine words that wrap around;
  `Image.validateIn`: the check in a build.
* `Image.pixel`: one pixel, or a fault.
-/

namespace SortLast

/-- A premultiplied pixel of eight bits per channel. -/
structure Pixel where
  r : UInt8
  g : UInt8
  b : UInt8
  a : UInt8
  deriving DecidableEq, Repr, Inhabited

/-- The four bytes of a pixel. -/
def Pixel.bytes (p : Pixel) : List UInt8 := [p.r, p.g, p.b, p.a]

/-- A participant's rendering for one frame. -/
structure Image where
  participant : UInt64 := 0
  frame : UInt64 := 0
  rect : Rect := ⟨0, 0, 0, 0⟩
  /-- Four bytes per pixel. -/
  colour : Array UInt8 := #[]
  /-- A depth per pixel, if the participant renders depth. -/
  depth : Option (Array Single) := none
  deriving DecidableEq, Repr, Inhabited

namespace Image

/-- The length that the colour buffer of a rectangle has to have, as a machine word. -/
def colourBytes (rect : Rect) : Nat := rect.area * 4 % wordModulus

/-- Check that the buffers fit the rectangle, whose colours take so many bytes. -/
def checkBuffers (i : Image) (bytes : Nat) : Except DataError Unit :=
  if i.colour.size ≠ bytes then
    .error (.colourSize i.colour.size bytes i.rect.width i.rect.height)
  else match i.depth with
    | none => .ok ()
    | some depth =>
      if depth.size ≠ i.rect.area then .error (.depthSize depth.size i.rect.area) else .ok ()

/-- Check that the buffers fit the rectangle. -/
def validate (i : Image) : Except DataError Unit := i.checkBuffers (colourBytes i.rect)

/-- Check that the buffers fit the rectangle. A checked build does not get over a rectangle whose
colours it cannot count. -/
def validateIn (b : Build) (i : Image) : Except Fault (Except DataError Unit) := do
  return i.checkBuffers (← b.times i.rect.area 4)

/-- An image of the given buffers, checked. -/
def ofBuffers (b : Build) (participant : UInt64) (rect : Rect) (colour : Array UInt8)
    (depth : Option (Array Single)) : Except Fault (Except DataError Image) := do
  let image : Image := { participant, rect, colour, depth }
  return (← image.validateIn b).map fun _ => image

/-- Some bytes and `n` pixels of one colour after them. -/
def pushPixels (p : Pixel) (bytes : Array UInt8) : (n : Nat) → Array UInt8
  | 0 => bytes
  | n + 1 => pushPixels p ((((bytes.push p.r).push p.g).push p.b).push p.a) n

/-- An image of one colour, if memory can hold it. -/
def filled (participant : UInt64) (rect : Rect) (p : Pixel) : Except Fault Image := do
  checkCapacity rect.area 4
  return { participant, rect, colour := pushPixels p (Array.emptyWithCapacity (4 * rect.area)) rect.area }

/-- The image that covers nothing. -/
def empty (participant : UInt64) : Image := { participant }

/-- The number of whole pixels in the colour buffer. -/
def pixelCount (i : Image) : Nat := i.colour.size / 4

/-- Pixel number `k` of the colour buffer. -/
def pixelAt? (i : Image) (k : Nat) : Option Pixel :=
  if h : 4 * k + 3 < i.colour.size then
    some ⟨i.colour[4 * k], i.colour[4 * k + 1], i.colour[4 * k + 2], i.colour[4 * k + 3]⟩
  else none

/-- The pixel at a column and row of the image. -/
def pixel (i : Image) (x y : UInt32) : Except Fault Pixel :=
  if i.colour.size % 4 ≠ 0 then .error .outOfBounds
  else match i.pixelAt? (y.toNat * i.rect.width.toNat + x.toNat) with
    | some p => .ok p
    | none => .error .outOfBounds

/-- The image under the given frame number. -/
def withFrame (i : Image) (frame : UInt64) : Image := { i with frame }

end Image

end SortLast
