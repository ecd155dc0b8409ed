import Mathlib.Tactic
import SortLast.Compositing.Compositor
import SortLast.Wire.Message

/-!
# Where an image's pixels lie in a window

An image is painted through its placement: machine words, computed from signed and unsigned
coordinates, that say which rows of the buffer are read. For every image that a frame can carry they
are the numbers that they stand for.

* `Rect.covers_clip`: inside the window, clipping changes nothing.
* `Rect.LiesIn`: the rectangles that lie in a window as a whole; `Rect.clip_liesIn` says that clipped
  ones do.
* `Image.Shows`, `Image.source`: the pixels of the window that an image has, and the image's pixel
  there.
* `Image.Addressable`: what is known of an image that a frame has carried.
* `Image.paint_eq`: painting an addressable image meets exactly the pixels that it shows, and no read
  is out of bounds.
-/

namespace SortLast

/-! ### Clipping -/

namespace Rect

variable (r : Rect) (width height : UInt32)

theorem clampTo_nonneg (limit : UInt32) (v : Int) : 0 ≤ clampTo limit v := by
  unfold clampTo
  omega

theorem clampTo_le (limit : UInt32) (v : Int) : clampTo limit v ≤ limit.toNat := by
  unfold clampTo
  omega

/-- A coordinate moved into a window is no larger than it was, or zero: it stays a signed word. -/
theorem toInt_ofInt_clampTo (limit : UInt32) (a : Int32) :
    (Int32.ofInt (clampTo limit a.toInt)).toInt = clampTo limit a.toInt := by
  have h0 := clampTo_nonneg limit a.toInt
  have hlt := a.toInt_lt
  have hmax : clampTo limit a.toInt ≤ max 0 a.toInt := by
    unfold clampTo
    omega
  exact Int32.toInt_ofInt_of_le (by omega) (by omega)

theorem toNat_ofNat_extent (limit : UInt32) (a b : Int) :
    (UInt32.ofNat (clampTo limit a - clampTo limit b).toNat).toNat =
      (clampTo limit a - clampTo limit b).toNat := by
  have ha := clampTo_le limit a
  have hb := clampTo_nonneg limit b
  have hl := limit.toNat_lt
  exact UInt32.toNat_ofNat_of_lt' (by rw [UInt32.size]; omega)

theorem clip_x : (r.clip width height).x.toInt = clampTo width r.x.toInt :=
  toInt_ofInt_clampTo width r.x

theorem clip_y : (r.clip width height).y.toInt = clampTo height r.y.toInt :=
  toInt_ofInt_clampTo height r.y

theorem clip_width : (r.clip width height).width.toNat =
    (clampTo width (r.x.toInt + r.width.toNat) - clampTo width r.x.toInt).toNat :=
  toNat_ofNat_extent width _ _

theorem clip_height : (r.clip width height).height.toNat =
    (clampTo height (r.y.toInt + r.height.toNat) - clampTo height r.y.toInt).toNat :=
  toNat_ofNat_extent height _ _

variable {r width height}

/-- Inside the window, the clipped rectangle has the pixels of the whole one. -/
theorem covers_clip {px py : Int} (hx : 0 ≤ px) (hxw : px < width.toNat) (hy : 0 ≤ py)
    (hyh : py < height.toNat) : (r.clip width height).Covers px py ↔ r.Covers px py := by
  unfold Covers
  rw [clip_x, clip_y, clip_width, clip_height]
  unfold clampTo
  omega

theorem isEmpty_iff : r.isEmpty ↔ r.width.toNat = 0 ∨ r.height.toNat = 0 := by
  rw [isEmpty, Bool.or_eq_true, beq_iff_eq, beq_iff_eq, ← UInt32.toNat_inj, ← UInt32.toNat_inj]
  rfl

/-- Of a rectangle with a pixel, neither side is larger than the area. -/
theorem sides_le_area (h : ¬ r.isEmpty) : r.width.toNat ≤ r.area ∧ r.height.toNat ≤ r.area := by
  rw [isEmpty_iff, not_or] at h
  exact ⟨Nat.le_mul_of_pos_right _ (Nat.pos_of_ne_zero h.2),
    Nat.le_mul_of_pos_left _ (Nat.pos_of_ne_zero h.1)⟩

/-- A rectangle with a visible part begins at most its own size to the left of the visible part. -/
theorem clip_bounds (h : ¬ (r.clip width height).isEmpty) :
    r.x.toInt ≤ (r.clip width height).x.toInt ∧
      (r.clip width height).x.toInt + (r.clip width height).width.toNat ≤
        r.x.toInt + r.width.toNat ∧
      r.y.toInt ≤ (r.clip width height).y.toInt ∧
      (r.clip width height).y.toInt + (r.clip width height).height.toNat ≤
        r.y.toInt + r.height.toNat := by
  rw [isEmpty_iff, clip_width, clip_height] at h
  rw [clip_x, clip_y, clip_width, clip_height]
  unfold clampTo at *
  omega

/-- The rectangle lies in a window of the given size, even if it is empty. -/
structure LiesIn (r : Rect) (width height : Int) : Prop where
  left : 0 ≤ r.x.toInt
  right : r.x.toInt + r.width.toNat ≤ width
  top : 0 ≤ r.y.toInt
  bottom : r.y.toInt + r.height.toNat ≤ height

theorem clip_liesIn (r : Rect) (width height : UInt32) :
    (r.clip width height).LiesIn width.toNat height.toNat := by
  constructor <;> simp only [clip_x, clip_y, clip_width, clip_height] <;> unfold clampTo <;> omega

theorem full_liesIn (width height : UInt32) :
    (full width height).LiesIn width.toNat height.toNat where
  left := Int.le_refl 0
  right := Int.le_of_eq (Int.zero_add _)
  top := Int.le_refl 0
  bottom := Int.le_of_eq (Int.zero_add _)

theorem LiesIn.area_le {w h : Nat} (hr : r.LiesIn w h) : r.area ≤ w * h := by
  have hleft := hr.left
  have hright := hr.right
  have htop := hr.top
  have hbottom := hr.bottom
  exact Nat.mul_le_mul (by omega) (by omega)

end Rect

/-! ### What an image shows -/

namespace Image

variable {i : Image} {px py : Int}

/-- The colour buffer has four bytes for every pixel of the rectangle. -/
def Filled (i : Image) : Prop := i.colour.size = 4 * i.rect.area

instance (i : Image) : Decidable i.Filled := inferInstanceAs (Decidable (_ = _))

/-- The image has a pixel at a column and row of the window. -/
def Shows (i : Image) (px py : Int) : Prop := i.Filled ∧ i.rect.Covers px py

instance (i : Image) (px py : Int) : Decidable (i.Shows px py) := inferInstanceAs (Decidable (_ ∧ _))

/-- The number, in the image, of the pixel at a column and row of the window. -/
def index (i : Image) (px py : Int) : Nat :=
  (py - i.rect.y.toInt).toNat * i.rect.width.toNat + (px - i.rect.x.toInt).toNat

theorem Shows.index_lt (h : i.Shows px py) : i.index px py < i.rect.area := by
  obtain ⟨-, hx, hxw, hy, hyh⟩ := h
  have hcol : (px - i.rect.x.toInt).toNat < i.rect.width.toNat := by omega
  have hrow : (py - i.rect.y.toInt).toNat + 1 ≤ i.rect.height.toNat := by omega
  calc i.index px py
      < (py - i.rect.y.toInt).toNat * i.rect.width.toNat + i.rect.width.toNat :=
        Nat.add_lt_add_left hcol _
    _ = ((py - i.rect.y.toInt).toNat + 1) * i.rect.width.toNat := (Nat.succ_mul _ _).symm
    _ ≤ i.rect.height.toNat * i.rect.width.toNat := Nat.mul_le_mul_right _ hrow
    _ = i.rect.area := Nat.mul_comm _ _

theorem Shows.index_bound (h : i.Shows px py) : 4 * i.index px py + 3 < i.colour.size := by
  have := h.index_lt
  rw [h.1]
  omega

/-- The image's pixel at a column and row of the window. -/
def source (i : Image) (px py : Int) (h : i.Shows px py) : Pixel :=
  have := h.index_bound
  let n := i.index px py
  ⟨i.colour[4 * n], i.colour[4 * n + 1], i.colour[4 * n + 2], i.colour[4 * n + 3]⟩

theorem pixelAt?_index (h : i.Shows px py) : i.pixelAt? (i.index px py) = some (i.source px py h) := by
  rw [pixelAt?, dif_pos h.index_bound]
  rfl

/-- The colour buffer is no larger than a frame, and its size is computed without overflow. -/
structure Addressable (i : Image) : Prop where
  colour : i.colour.size ≤ maxPayload
  area : 4 * i.rect.area < 2 ^ 64

theorem Addressable.filled_iff (h : i.Addressable) :
    i.colour.size = colourBytes i.rect ↔ i.Filled := by
  have harea : 4 * i.rect.area < wordModulus := h.area
  rw [colourBytes, Nat.mul_comm, Nat.mod_eq_of_lt harea]
  rfl

end Image

/-! ### Placements -/

namespace Placement

/-- A difference of coordinates does not wrap around if it is small and not negative. -/
theorem toInt_sub_of_le {a b : Int32} (h : b.toInt ≤ a.toInt) (hlt : a.toInt - b.toInt < 2 ^ 31) :
    (a - b).toInt = a.toInt - b.toInt := by
  rw [Int32.toInt_sub]
  exact Int.bmod_eq_of_le (by omega) (by omega)

/-- Such a difference is the word that stands for it. -/
theorem toNat_offset {a b : Int32} (h : b.toInt ≤ a.toInt) (hlt : a.toInt - b.toInt < 2 ^ 31) :
    ((offset a b).toNat : Int) = a.toInt - b.toInt := by
  have hd : (a - b).toInt64.toInt = a.toInt - b.toInt := by
    rw [Int32.toInt_toInt64, toInt_sub_of_le h hlt]
  have h0 : (0 : Int64) ≤ (a - b).toInt64 := by
    rw [Int64.le_iff_toInt_le, hd]
    show (0 : Int) ≤ _
    omega
  rw [offset, Int64.toNat_toUInt64_of_le h0, Int64.toNatClampNeg, hd]
  omega

/-- A placement whose words are the numbers that they stand for. -/
structure Exact (p : Placement) (i : Image) (width height : UInt32) : Prop where
  filled : i.Filled
  visible : p.visible = i.rect.clip width height
  nonempty : ¬ p.visible.isEmpty
  dx : (p.dx.toNat : Int) = p.visible.x.toInt - i.rect.x.toInt
  dy : (p.dy.toNat : Int) = p.visible.y.toInt - i.rect.y.toInt
  stride : p.stride.toNat = i.rect.width.toNat
  area : i.rect.area ≤ 2 ^ 24

/-- The words of an addressable image's placement never wrap around. -/
theorem of?_cases {i : Image} (h : i.Addressable) (width height : UInt32) :
    (of? i width height = none ∧ (¬ i.Filled ∨ (i.rect.clip width height).isEmpty)) ∨
      ∃ p, of? i width height = some p ∧ p.Exact i width height := by
  unfold of?
  simp only
  split
  · rename_i hc
    refine .inl ⟨rfl, ?_⟩
    rw [Bool.or_eq_true, bne_iff_ne, ne_eq, h.filled_iff] at hc
    exact hc.symm
  · rename_i hc
    rw [Bool.or_eq_true, bne_iff_ne, ne_eq, h.filled_iff, not_or, not_not] at hc
    obtain ⟨hempty, hfill⟩ := hc
    obtain ⟨hx, hxw, hy, hyh⟩ := Rect.clip_bounds hempty
    have hpos := hempty
    rw [Rect.isEmpty_iff, not_or] at hpos
    have harea : i.rect.area ≤ 2 ^ 24 := by
      have hsize := h.colour
      rw [hfill, maxPayload] at hsize
      omega
    obtain ⟨hw, hh⟩ := Rect.sides_le_area (r := i.rect) (by rw [Rect.isEmpty_iff]; omega)
    refine .inr ⟨_, rfl, hfill, rfl, hempty, ?_, ?_, rfl, harea⟩
    · exact toNat_offset hx (by omega)
    · exact toNat_offset hy (by omega)

namespace Exact

variable {p : Placement} {i : Image} {width height : UInt32}

/-- Visible rows are rows of the image. -/
theorem row_lt (h : p.Exact i width height) {k : Nat} (hk : k < p.visible.height.toNat) :
    k + p.dy.toNat < i.rect.height.toNat := by
  have hb := Rect.clip_bounds (h.visible ▸ h.nonempty)
  rw [← h.visible] at hb
  have hdy := h.dy
  omega

theorem columns_le (h : p.Exact i width height) :
    p.dx.toNat + p.visible.width.toNat ≤ i.rect.width.toNat := by
  have hb := Rect.clip_bounds (h.visible ▸ h.nonempty)
  rw [← h.visible] at hb
  have hdx := h.dx
  omega

theorem row_end_le (h : p.Exact i width height) {k : Nat} (hk : k < p.visible.height.toNat) :
    (k + p.dy.toNat) * i.rect.width.toNat + i.rect.width.toNat ≤ i.rect.area := by
  rw [← Nat.succ_mul, Rect.area, Nat.mul_comm i.rect.width.toNat]
  exact Nat.mul_le_mul_right _ (h.row_lt hk)

theorem rowStart_toNat (h : p.Exact i width height) {k : Nat} (hk : k < p.visible.height.toNat) :
    (p.rowStart k).toNat = (k + p.dy.toNat) * i.rect.width.toNat := by
  have hrow := h.row_lt hk
  have hend := h.row_end_le hk
  have harea := h.area
  have hlt := i.rect.height.toNat_lt
  have hk64 : (UInt64.ofNat k).toNat = k := UInt64.toNat_ofNat_of_lt' (by rw [UInt64.size]; omega)
  rw [rowStart, UInt64.toNat_mul, UInt64.toNat_add, hk64, h.stride,
    Nat.mod_eq_of_lt (show k + p.dy.toNat < 2 ^ 64 by omega), Nat.mod_eq_of_lt (by omega)]

/-- No read is out of bounds. -/
theorem inBounds (h : p.Exact i width height) : p.inBounds i.pixelCount = true := by
  have hcount : i.pixelCount = i.rect.area := by
    rw [Image.pixelCount, h.filled, Nat.mul_div_cancel_left _ (by decide)]
  rw [Placement.inBounds, List.all_eq_true]
  intro k hk
  rw [List.mem_range] at hk
  rw [Bool.and_eq_true, decide_eq_true_eq, decide_eq_true_eq, h.rowStart_toNat hk, h.stride, hcount]
  exact ⟨h.row_end_le hk, h.columns_le⟩

/-- A position in the window is read from the image's pixel there. -/
theorem source?_eq (h : p.Exact i width height) {k : Nat} (hk : k < Framebuffer.area width height) :
    p.source? width k =
      if i.rect.Covers (k % width.toNat : Nat) (k / width.toNat : Nat) then
        some (i.index (k % width.toNat : Nat) (k / width.toNat : Nat))
      else none := by
  have hw : 0 < width.toNat := Nat.pos_of_mul_pos_right (Nat.lt_of_le_of_lt (Nat.zero_le k) hk)
  have hcol : k % width.toNat < width.toNat := Nat.mod_lt _ hw
  have hrow : k / width.toNat < height.toNat := Nat.div_lt_of_lt_mul hk
  have hiff : (i.rect.clip width height).Covers (k % width.toNat : Nat) (k / width.toNat : Nat) ↔
      i.rect.Covers (k % width.toNat : Nat) (k / width.toNat : Nat) :=
    Rect.covers_clip (Int.natCast_nonneg _) (Int.ofNat_lt.2 hcol) (Int.natCast_nonneg _)
      (Int.ofNat_lt.2 hrow)
  rw [← h.visible] at hiff
  unfold source?
  simp only [← Int.natCast_mod, ← Int.natCast_div]
  by_cases hc : i.rect.Covers (k % width.toNat : Nat) (k / width.toNat : Nat)
  · have hv := hiff.2 hc
    rw [if_pos hc, if_pos hv]
    obtain ⟨hx, hxw, hy, hyh⟩ := hv
    have hdx := h.dx
    have hdy := h.dy
    rw [h.rowStart_toNat (by omega), Image.index]
    congr 1
    have hy' : ((k / width.toNat : Nat) - p.visible.y.toInt).toNat + p.dy.toNat =
        ((k / width.toNat : Nat) - i.rect.y.toInt).toNat := by omega
    rw [hy']
    omega
  · rw [if_neg hc, if_neg fun hv => hc (hiff.1 hv)]

end Exact
end Placement

/-! ### Painting -/

namespace Image

variable {β : Type} {i : Image}

/-- An image shows nothing in a window if its visible part is empty. -/
theorem not_shows_of_isEmpty {width height : UInt32} (h : (i.rect.clip width height).isEmpty)
    {px py : Nat} (hx : px < width.toNat) (hy : py < height.toNat) : ¬ i.Shows px py := by
  rintro ⟨-, hc⟩
  rw [Rect.isEmpty_iff] at h
  have hclip := (Rect.covers_clip (Int.natCast_nonneg px) (Int.ofNat_lt.2 hx)
    (Int.natCast_nonneg py) (Int.ofNat_lt.2 hy)).2 hc
  unfold Rect.Covers at hclip
  omega

/-- Painting an addressable image changes the positions that it shows, by its pixels there, and no
other position. -/
theorem paint_eq (h : i.Addressable) {width height : UInt32} {pixels : Array β}
    (hsize : pixels.size = Framebuffer.area width height) (f : β → Pixel → Nat → β) :
    ∃ painted : Array β, i.paint width height pixels f = .ok painted ∧
      ∃ hs : painted.size = pixels.size, ∀ (k : Nat) (hk : k < pixels.size),
        painted[k] =
          if hi : i.Shows (k % width.toNat : Nat) (k / width.toNat : Nat) then
            f pixels[k] (i.source _ _ hi) (i.index (k % width.toNat : Nat) (k / width.toNat : Nat))
          else pixels[k] := by
  have hwindow : ∀ k < pixels.size, k % width.toNat < width.toNat ∧ k / width.toNat < height.toNat := by
    intro k hk
    rw [hsize] at hk
    have hw : 0 < width.toNat := Nat.pos_of_mul_pos_right (Nat.lt_of_le_of_lt (Nat.zero_le k) hk)
    exact ⟨Nat.mod_lt _ hw, Nat.div_lt_of_lt_mul hk⟩
  unfold paint
  rcases Placement.of?_cases h width height with ⟨hnone, hwhy⟩ | ⟨p, hsome, hp⟩
  · rw [hnone]
    refine ⟨pixels, rfl, rfl, ?_⟩
    intro k hk
    rw [dif_neg]
    rcases hwhy with hfill | hempty
    · exact fun hi => hfill hi.1
    · exact not_shows_of_isEmpty hempty (hwindow k hk).1 (hwindow k hk).2
  · rw [hsome]
    simp only [hp.inBounds, if_true]
    refine ⟨_, rfl, Array.size_mapIdx, ?_⟩
    intro k hk
    rw [Array.getElem_mapIdx, hp.source?_eq (hsize ▸ hk)]
    by_cases hi : i.Shows (k % width.toNat : Nat) (k / width.toNat : Nat)
    · rw [if_pos hi.2, dif_pos hi]
      simp only [pixelAt?_index hi]
    · rw [if_neg fun hc => hi ⟨hp.filled, hc⟩, dif_neg hi]

end Image
end SortLast
