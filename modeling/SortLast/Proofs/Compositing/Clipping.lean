import SortLast.Proofs.Compositing.Placement

/-!
# Clipping as intersection

Clipping moves the edges of a rectangle into a window. It computes with integers that have no bound and
writes the edges back to 32-bit words, which hold them for every rectangle and every window. What is
left is the set of pixels that rectangle and window have in common, so clipping to several windows is
clipping to the smallest one. The compositor then subtracts signed words; it is the size of a frame
that keeps these differences small.

* `Rect.HasEdges`: a rectangle whose words stand for the given edges.
* `Rect.covers_clip_iff`: the pixels of a clipped rectangle.
* `Rect.clip_clip`: one window after the other.
* `Placement.Exact.reads`: where the rows and columns of the visible part are read.
* `Rect.clip_exact`: clipping is intersection, and the offsets that the compositor takes from it are
  safe.
-/

namespace SortLast

/-! ### Edges -/

namespace Rect

variable {r s : Rect} {width height : UInt32}

/-- The edges of a rectangle, with its words read as integers: the first column and row, and the first
ones behind it. -/
structure HasEdges (r : Rect) (left top right bottom : Int) : Prop where
  left : r.x.toInt = left
  top : r.y.toInt = top
  right : r.x.toInt + r.width.toNat = right
  bottom : r.y.toInt + r.height.toNat = bottom

/-- A rectangle is known by its edges. -/
theorem HasEdges.eq {left top right bottom : Int} (hr : r.HasEdges left top right bottom)
    (hs : s.HasEdges left top right bottom) : r = s := by
  obtain ⟨hrl, hrt, hrr, hrb⟩ := hr
  obtain ⟨hsl, hst, hsr, hsb⟩ := hs
  obtain ⟨x, y, w, h⟩ := r
  obtain ⟨x', y', w', h'⟩ := s
  obtain rfl : x = x' := Int32.toInt_inj.1 (hrl.trans hsl.symm)
  obtain rfl : y = y' := Int32.toInt_inj.1 (hrt.trans hst.symm)
  obtain rfl : w = w' := UInt32.toNat_inj.1 (by dsimp only at hrr hsr; omega)
  obtain rfl : h = h' := UInt32.toNat_inj.1 (by dsimp only at hrb hsb; omega)
  rfl

theorem clampTo_mono (limit : UInt32) {a b : Int} (h : a ≤ b) : clampTo limit a ≤ clampTo limit b := by
  unfold clampTo
  omega

/-- What is moved into two windows in turn is moved into the smaller one. -/
theorem clampTo_clampTo (limit limit' : UInt32) (v : Int) :
    clampTo limit' (clampTo limit v) = clampTo (min limit limit') v := by
  have hmin := UInt32.toNat_min limit limit'
  unfold clampTo
  omega

/-- Nothing wraps around: the words of a clipped rectangle stand for the edges moved into the
window. -/
theorem clip_hasEdges (r : Rect) (width height : UInt32) :
    (r.clip width height).HasEdges (clampTo width r.x.toInt) (clampTo height r.y.toInt)
      (clampTo width (r.x.toInt + r.width.toNat)) (clampTo height (r.y.toInt + r.height.toNat)) := by
  have hx := clampTo_mono width (show r.x.toInt ≤ r.x.toInt + r.width.toNat by omega)
  have hy := clampTo_mono height (show r.y.toInt ≤ r.y.toInt + r.height.toNat by omega)
  refine ⟨clip_x r width height, clip_y r width height, ?_, ?_⟩
  · rw [clip_x, clip_width]
    omega
  · rw [clip_y, clip_height]
    omega

/-! ### Pixels and windows -/

/-- The pixels of a clipped rectangle are those of the rectangle that lie in the window. -/
theorem covers_clip_iff {px py : Int} : (r.clip width height).Covers px py ↔
    r.Covers px py ∧ 0 ≤ px ∧ px < width.toNat ∧ 0 ≤ py ∧ py < height.toNat := by
  constructor
  · intro hc
    obtain ⟨hleft, hright, htop, hbottom⟩ := clip_liesIn r width height
    obtain ⟨hx, hxw, hy, hyh⟩ := id hc
    have hwindow : 0 ≤ px ∧ px < width.toNat ∧ 0 ≤ py ∧ py < height.toNat := by omega
    exact ⟨(covers_clip hwindow.1 hwindow.2.1 hwindow.2.2.1 hwindow.2.2.2).1 hc, hwindow⟩
  · rintro ⟨hc, hx, hxw, hy, hyh⟩
    exact (covers_clip hx hxw hy hyh).2 hc

/-- Clipping to one window after the other is clipping to the smaller sides. -/
theorem clip_clip (r : Rect) (width height width' height' : UInt32) :
    (r.clip width height).clip width' height' = r.clip (min width width') (min height height') := by
  obtain ⟨hleft, htop, hright, hbottom⟩ := clip_hasEdges r width height
  have h := clip_hasEdges (r.clip width height) width' height'
  rw [hright, hbottom, hleft, htop, clampTo_clampTo, clampTo_clampTo, clampTo_clampTo,
    clampTo_clampTo] at h
  exact h.eq (clip_hasEdges r _ _)

end Rect

/-! ### Reading the visible part -/

namespace Placement

/-- What a placement says about reading an image: the signed differences are exact and not negative,
the machine words are these differences, and the visible part in some row and column is read from the
pixel that the image has there. -/
structure Reads (p : Placement) (i : Image) : Prop where
  sub_x : (p.visible.x - i.rect.x).toInt = p.visible.x.toInt - i.rect.x.toInt
  sub_y : (p.visible.y - i.rect.y).toInt = p.visible.y.toInt - i.rect.y.toInt
  dx : (p.dx.toNat : Int) = (p.visible.x - i.rect.x).toInt
  dy : (p.dy.toNat : Int) = (p.visible.y - i.rect.y).toInt
  index : ∀ row < p.visible.height.toNat, ∀ column < p.visible.width.toNat,
    (p.rowStart row).toNat + p.dx.toNat + column =
      i.index (p.visible.x.toInt + column) (p.visible.y.toInt + row)
  bound : ∀ row < p.visible.height.toNat, ∀ column < p.visible.width.toNat,
    4 * ((p.rowStart row).toNat + p.dx.toNat + column) + 3 < i.colour.size

variable {p : Placement} {i : Image} {width height : UInt32}

/-- The pixels of the visible part are pixels of the image. -/
theorem Exact.shows (h : p.Exact i width height) {row column : Nat}
    (hrow : row < p.visible.height.toNat) (hcolumn : column < p.visible.width.toNat) :
    i.Shows (p.visible.x.toInt + column) (p.visible.y.toInt + row) := by
  have hvisible : p.visible.Covers (p.visible.x.toInt + column) (p.visible.y.toInt + row) := by
    unfold Rect.Covers
    omega
  rw [h.visible, Rect.covers_clip_iff, ← h.visible] at hvisible
  exact ⟨h.filled, hvisible.1⟩

theorem Exact.reads (h : p.Exact i width height) : p.Reads i := by
  have hb := Rect.clip_bounds (h.visible ▸ h.nonempty)
  rw [← h.visible] at hb
  obtain ⟨hx, -, hy, -⟩ := hb
  have hdx := h.dx
  have hdy := h.dy
  have hne := h.nonempty
  rw [Rect.isEmpty_iff, not_or] at hne
  -- an offset is a column or row of the image, and no image in a frame has more than `2 ^ 24`
  have hcolumns := h.columns_le
  have hrows := h.row_lt (Nat.pos_of_ne_zero hne.2)
  have hsides := Rect.sides_le_area (r := i.rect) (by rw [Rect.isEmpty_iff]; omega)
  have harea := h.area
  have hsubx := toInt_sub_of_le hx (by omega)
  have hsuby := toInt_sub_of_le hy (by omega)
  have hindex : ∀ row < p.visible.height.toNat, ∀ column < p.visible.width.toNat,
      (p.rowStart row).toNat + p.dx.toNat + column =
        i.index (p.visible.x.toInt + column) (p.visible.y.toInt + row) := by
    intro row hrow column _
    have hline : (p.visible.y.toInt + row - i.rect.y.toInt).toNat = row + p.dy.toNat := by omega
    have hplace : (p.visible.x.toInt + column - i.rect.x.toInt).toNat = p.dx.toNat + column := by omega
    rw [h.rowStart_toNat hrow, Image.index, hline, hplace, Nat.add_assoc]
  refine ⟨hsubx, hsuby, by rw [hsubx, hdx], by rw [hsuby, hdy], hindex, ?_⟩
  intro row hrow column hcolumn
  rw [hindex row hrow column hcolumn]
  exact (h.shows hrow hcolumn).index_bound

end Placement

/-! ### Exactness -/

namespace Rect

/-- Clipping a rectangle to a window is intersecting them: it leaves their common pixels, its words
stand for exact edges, a second window leaves what the smaller sides leave, whichever comes first, and
a repetition changes nothing. For an image with a pixel for every place of the rectangle, in no more
bytes than a frame has, the visible part is read inside of the image's colours. -/
theorem clip_exact (r : Rect) (width height : UInt32) :
    (∀ px py : Int, (r.clip width height).Covers px py ↔
      r.Covers px py ∧ 0 ≤ px ∧ px < width.toNat ∧ 0 ≤ py ∧ py < height.toNat) ∧
    (r.clip width height).HasEdges (clampTo width r.x.toInt) (clampTo height r.y.toInt)
      (clampTo width (r.x.toInt + r.width.toNat)) (clampTo height (r.y.toInt + r.height.toNat)) ∧
    (r.clip width height).clip width height = r.clip width height ∧
    (∀ width' height' : UInt32,
      (r.clip width height).clip width' height' = r.clip (min width width') (min height height') ∧
      (r.clip width' height').clip width height = r.clip (min width width') (min height height')) ∧
    ∀ i : Image, i.rect = r → i.colour.size = 4 * r.area → 4 * r.area ≤ maxPayload →
      ¬ (r.clip width height).isEmpty →
        ∃ p, Placement.of? i width height = some p ∧ p.visible = r.clip width height ∧ p.Reads i := by
  refine ⟨fun px py => covers_clip_iff, clip_hasEdges r width height, ?_, fun width' height' => ?_, ?_⟩
  · rw [clip_clip, Std.min_self, Std.min_self]
  · have hcomm : ∀ a b : UInt32, min a b = min b a := fun a b =>
      UInt32.toNat_inj.1 (by rw [UInt32.toNat_min, UInt32.toNat_min, Nat.min_comm])
    exact ⟨clip_clip r _ _ _ _, by rw [clip_clip, hcomm width', hcomm height']⟩
  · rintro i rfl hsize hmax hvisible
    have hframe : maxPayload < 2 ^ 64 := by decide
    have haddressable : i.Addressable := ⟨hsize ▸ hmax, by omega⟩
    obtain ⟨-, hfill | hempty⟩ | ⟨p, hp, hexact⟩ := Placement.of?_cases haddressable width height
    · exact absurd hsize hfill
    · exact absurd hempty hvisible
    · exact ⟨p, hp, hexact.visible, hexact.reads⟩

/-- An image that begins one column to the left of its window: of its two rows, the first one is seen in
the last row of the window, from its second column on. -/
theorem clip_exact_left_overhang :
    let i : Image := { rect := ⟨-1, 1, 3, 2⟩, colour := Array.replicate 24 7 }
    i.colour.size = 4 * i.rect.area ∧ 4 * i.rect.area ≤ maxPayload ∧
      i.rect.clip 2 2 = ⟨0, 1, 2, 1⟩ ∧ Placement.of? i 2 2 = some ⟨⟨0, 1, 2, 1⟩, 1, 0, 3⟩ ∧
      (⟨⟨0, 1, 2, 1⟩, 1, 0, 3⟩ : Placement).Reads i := by
  intro i
  have hplace : Placement.of? i 2 2 = some ⟨⟨0, 1, 2, 1⟩, 1, 0, 3⟩ := by decide
  refine ⟨rfl, by decide, by decide, hplace, ?_⟩
  obtain ⟨p, hp, -, hreads⟩ := (clip_exact i.rect 2 2).2.2.2.2 i rfl rfl (by decide) (by decide)
  rw [hplace, Option.some.injEq] at hp
  exact hp ▸ hreads

/-- Between the limits of the words: the right edge is behind every window whose width is a signed
word. -/
example : (⟨-2147483648, 2147483647, 4294967295, 4294967295⟩ : Rect).clip 2147483647 2147483647 =
    ⟨0, 2147483647, 2147483647, 0⟩ := by decide

end Rect
end SortLast
