/-!
# Screen rectangles

Rectangles of pixels in a window whose row 0 is the top row. Positions and sizes are 32-bit words,
since a rectangle may come from a peer; clipping computes in exact integers.

* `Rect.clip`: the part of a rectangle inside a window.
* `Rect.Covers`: the pixels of a rectangle.
-/

namespace SortLast

/-- A rectangle of pixels. -/
structure Rect where
  x : Int32
  y : Int32
  width : UInt32
  height : UInt32
  deriving DecidableEq, Repr, Inhabited

namespace Rect

/-- The rectangle of a whole window. -/
def full (width height : UInt32) : Rect := ⟨0, 0, width, height⟩

/-- The number of pixels. -/
def area (r : Rect) : Nat := r.width.toNat * r.height.toNat

/-- True if there is no pixel. -/
def isEmpty (r : Rect) : Bool := r.width == 0 || r.height == 0

/-- Move an integer into `[0, limit]`. -/
def clampTo (limit : UInt32) (v : Int) : Int := max 0 (min v limit.toNat)

/-- The part inside a window of the given size. -/
def clip (r : Rect) (width height : UInt32) : Rect :=
  let x0 := clampTo width r.x.toInt
  let y0 := clampTo height r.y.toInt
  let x1 := clampTo width (r.x.toInt + r.width.toNat)
  let y1 := clampTo height (r.y.toInt + r.height.toNat)
  ⟨Int32.ofInt x0, Int32.ofInt y0, UInt32.ofNat (x1 - x0).toNat, UInt32.ofNat (y1 - y0).toNat⟩

/-- True for the pixels of a rectangle, given by column and row. -/
def Covers (r : Rect) (px py : Int) : Prop :=
  r.x.toInt ≤ px ∧ px < r.x.toInt + r.width.toNat ∧
    r.y.toInt ≤ py ∧ py < r.y.toInt + r.height.toNat

instance (r : Rect) (px py : Int) : Decidable (r.Covers px py) :=
  inferInstanceAs (Decidable (_ ∧ _ ∧ _ ∧ _))

end Rect

end SortLast
