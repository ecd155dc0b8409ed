import SortLast.Image

/-!
# Framebuffers

Premultiplied colours of a window, row by row from the top, with an optional depth plane that holds
the nearest sample per pixel. Colours are over any channel type: single precision where the program
computes, exact numbers where a law of compositing is stated.

* `Channel`: the arithmetic that compositing needs of a colour channel.
* `Framebuffer`: the pixels; `clear`, `pixel`, `depthAt`.
* `Framebuffer.allocate`, `Framebuffer.resize`: a window of some size, if memory can hold it.
* `Framebuffer.rgba8`: the pixels as bytes.
-/

namespace SortLast

/-- The arithmetic of a colour channel. -/
class Channel (α : Type) extends Add α, Sub α, Mul α where
  zero : α
  one : α
  /-- A byte as a fraction of 255. -/
  ofByte : UInt8 → α
  /-- True if an opacity is full or beyond. -/
  isFull : α → Bool

instance : Channel Single where
  zero := 0
  one := 1
  ofByte b := Single.ofNat b.toNat / 255
  isFull x := decide (1 ≤ x)

instance : Channel Rat where
  zero := 0
  one := 1
  ofByte b := mkRat b.toNat 255
  isFull x := decide (1 ≤ x)

/-- A window's colours and depths. -/
structure Framebuffer (α : Type) where
  width : UInt32
  height : UInt32
  pixels : Array (Vec4 α)
  depth : Option (Array Single)
  deriving DecidableEq, Repr

namespace Framebuffer

variable {α : Type}

/-- The number of pixels of a window. -/
def area (width height : UInt32) : Nat := width.toNat * height.toNat

section

variable [Channel α]

/-- The transparent colour. -/
def transparent : Vec4 α := Vec4.splat Channel.zero

/-- A transparent window without depths. -/
def blank (width height : UInt32) : Framebuffer α :=
  ⟨width, height, Array.replicate (area width height) transparent, none⟩

/-- Keep depths from now on; they start at infinity. -/
def enableDepth (f : Framebuffer α) : Framebuffer α :=
  match f.depth with
  | some _ => f
  | none => { f with depth := some (Array.replicate f.pixels.size .infinity) }

/-- A transparent window with depths at infinity. -/
def withDepth (width height : UInt32) : Framebuffer α := (blank width height).enableDepth

/-- A transparent window, which keeps depths on demand. A pixel takes four channels of four bytes. -/
def allocate (width height : UInt32) (keepsDepth : Bool) : Except Fault (Framebuffer α) := do
  checkCapacity (area width height) 16
  return if keepsDepth then withDepth width height else blank width height

/-- A transparent window of another size, which keeps depths if this one does. -/
def resize (f : Framebuffer α) (width height : UInt32) : Except Fault (Framebuffer α) :=
  allocate width height f.depth.isSome

end

/-- Fill with a colour and put all depths to infinity. -/
def clear (f : Framebuffer α) (colour : Vec4 α) : Framebuffer α :=
  { f with
    pixels := Array.replicate f.pixels.size colour
    depth := f.depth.map fun d => Array.replicate d.size .infinity }

/-- The position of a pixel in the buffers. -/
def index (f : Framebuffer α) (x y : UInt32) : Nat := y.toNat * f.width.toNat + x.toNat

/-- The colour at a column and row. -/
def pixel (f : Framebuffer α) (x y : UInt32) : Except Fault (Vec4 α) :=
  match f.pixels[f.index x y]? with
  | some p => .ok p
  | none => .error .outOfBounds

/-- The depth at a column and row, if depths are kept. -/
def depthAt (f : Framebuffer α) (x y : UInt32) : Except Fault (Option Single) :=
  match f.depth with
  | none => .ok none
  | some d => match d[f.index x y]? with
    | some v => .ok (some v)
    | none => .error .outOfBounds

/-- A channel as a byte, after it is moved into `[0, 1]`. -/
def channelByte (c : Single) : UInt8 := (c.clamp 0 1 * 255).round.toUInt8

/-- The pixels as bytes, four per pixel. -/
def rgba8 (f : Framebuffer Single) : List UInt8 :=
  f.pixels.toList.flatMap fun p =>
    [channelByte p.x, channelByte p.y, channelByte p.z, channelByte p.w]

end Framebuffer

end SortLast
