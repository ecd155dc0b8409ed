import SortLast.Compositing.Framebuffer
import SortLast.Partition.Tree

/-!
# Compositing

Partial images are blended into a framebuffer in visibility order: from back to front with "over",
or from front to back with "under", which leaves opaque pixels alone. An image whose colour buffer
does not fit its rectangle counts for nothing; what lies outside the window is cut off.

* `blendOver`, `blendUnder`: the two blend operators.
* `Placement.of?`: where an image lies in a window and where its pixels are read.
* `Compositor.composite`: blend a list of images over a background; `Compositor.compositeIn`: the same
  in a build.
-/

namespace SortLast

/-- A pixel as a colour. -/
def Pixel.toColour {α : Type} [Channel α] (p : Pixel) : Vec4 α :=
  ⟨Channel.ofByte p.r, Channel.ofByte p.g, Channel.ofByte p.b, Channel.ofByte p.a⟩

/-- A nearer colour `src` over what lies behind it. -/
def blendOver {α : Type} [Channel α] (dst src : Vec4 α) : Vec4 α := src + dst * (Channel.one - src.w)

/-- A farther colour `src` under what lies in front of it; behind an opaque colour it is not
seen. -/
def blendUnder {α : Type} [Channel α] (dst src : Vec4 α) : Vec4 α :=
  if Channel.isFull dst.w then dst else dst + src * (Channel.one - dst.w)

/-- The visible part of an image in a window, and the offset at which it is read from the image. Sums
and products are machine words, as they are wherever a buffer is addressed. -/
structure Placement where
  /-- The visible part, in window coordinates. -/
  visible : Rect
  /-- Image column of the first visible column. -/
  dx : UInt64
  /-- Image row of the first visible row. -/
  dy : UInt64
  stride : UInt64
  deriving DecidableEq, Repr

namespace Placement

/-- The difference of two coordinates, as a machine word. -/
def offset (a b : Int32) : UInt64 := (a - b).toInt64.toUInt64

/-- Where an image lies in a window; `none` if nothing of it is visible or its colour buffer does not
fit its rectangle. -/
def of? (i : Image) (width height : UInt32) : Option Placement :=
  let visible := i.rect.clip width height
  if visible.isEmpty || i.colour.size != Image.colourBytes i.rect then none
  else some ⟨visible, offset visible.x i.rect.x, offset visible.y i.rect.y, i.rect.width.toUInt64⟩

/-- Position in the image of the first pixel of visible row `k`. -/
def rowStart (p : Placement) (k : Nat) : UInt64 := (UInt64.ofNat k + p.dy) * p.stride

/-- True if every visible row lies in a buffer of `pixels` pixels, and the visible columns in it. -/
def inBounds (p : Placement) (pixels : Nat) : Bool :=
  (List.range p.visible.height.toNat).all fun k =>
    (p.rowStart k).toNat + p.stride.toNat ≤ pixels &&
      p.dx.toNat + p.visible.width.toNat ≤ p.stride.toNat

/-- The position in the image of the pixel at position `k` of a window of the given width, if it is
visible there. -/
def source? (p : Placement) (width : UInt32) (k : Nat) : Option Nat :=
  let x : Int := k % width.toNat
  let y : Int := k / width.toNat
  if p.visible.Covers x y then
    some ((p.rowStart (y - p.visible.y.toInt).toNat).toNat + p.dx.toNat +
      (x - p.visible.x.toInt).toNat)
  else none

end Placement

/-- Apply a function to every pixel that an image covers in a window, with the image's pixel and its
number. A pixel read outside the image's buffer is a fault. -/
def Image.paint {β : Type} (i : Image) (width height : UInt32) (pixels : Array β)
    (f : β → Pixel → Nat → β) : Except Fault (Array β) :=
  match Placement.of? i width height with
  | none => .ok pixels
  | some p =>
    if p.inBounds i.pixelCount then
      .ok (pixels.mapIdx fun k dst =>
        match p.source? width k with
        | none => dst
        | some n => match i.pixelAt? n with
          | some src => f dst src n
          | none => dst)
    else .error .outOfBounds

/-- How images are composited. -/
structure Compositor where
  /-- The order in which images are given, which fixes the operator. -/
  order : VisitOrder := .backToFront
  depth : Bool := false
  deriving DecidableEq, Repr

namespace Compositor

variable {α : Type} [Channel α]

/-- Blend an image into a framebuffer with an operator. -/
def blend (op : Vec4 α → Vec4 α → Vec4 α) (target : Framebuffer α) (i : Image) :
    Except Fault (Framebuffer α) := do
  let pixels ← i.paint target.width target.height target.pixels fun dst src _ => op dst src.toColour
  return { target with pixels }

/-- Keep the nearer of the depths held and the image's, wherever the image has an opacity. An image
without a fitting depth buffer counts for nothing. -/
def mergeDepth (target : Framebuffer α) (i : Image) : Except Fault (Framebuffer α) :=
  match i.depth, target.depth with
  | some samples, some held =>
    if samples.size ≠ i.rect.area then .ok target
    else do
      let depth ← i.paint target.width target.height held fun dst src n =>
        -- a depth that is not a number loses against every other
        if src.a = 0 then dst else dst.min (samples.getD n .infinity)
      return { target with depth := some depth }
  | _, _ => .ok target

/-- Blend one image and merge its depth. -/
def add (c : Compositor) (op : Vec4 α → Vec4 α → Vec4 α) (target : Framebuffer α) (i : Image) :
    Except Fault (Framebuffer α) := do
  let target ← blend op target i
  if c.depth then mergeDepth target i else return target

/-- Composite images, given in the compositor's order, over a background. -/
def composite (c : Compositor) (target : Framebuffer α) (background : Vec4 α) (images : List Image) :
    Except Fault (Framebuffer α) :=
  let target := if c.depth then target.enableDepth else target
  match c.order with
  | .backToFront => images.foldlM (c.add blendOver) (target.clear background)
  | .frontToBack => do
    let target ← images.foldlM (c.add blendUnder) (target.clear Framebuffer.transparent)
    return { target with
      pixels := target.pixels.map fun dst => dst + background * (Channel.one - dst.w : α) }

/-- Count the bytes of an image's colours, if any of it is visible in a window. -/
def countVisible (b : Build) (width height : UInt32) (i : Image) : Except Fault Unit :=
  if (i.rect.clip width height).isEmpty then .ok () else (b.times i.rect.area 4).map fun _ => ()

/-- Composite images in a build: a checked one does not get over a visible image whose colours it cannot
count. -/
def compositeIn (b : Build) (c : Compositor) (target : Framebuffer α) (background : Vec4 α)
    (images : List Image) : Except Fault (Framebuffer α) := do
  images.forM (countVisible b target.width target.height)
  c.composite target background images

end Compositor

end SortLast
