import SortLast.Proofs.Compositing.Pixels

/-!
# The two orders of compositing

Over exact numbers, images composited from back to front and the same images composited from front to
back make one picture. To put a layer under a colour is to put the colour over the layer, as long as
the colour is not more than opaque; and putting colours over one another is associative, so it does
not matter whether the layers are gathered from the background or from the eye.

* `blendOver_assoc`, `blendUnder_eq`: the two operators.
* `foldl_blendOver`: a background can be put under the layers at the end.
* `foldl_blendUnder_reverse`: layers from front to back; an opaque colour that hides the rest has the
  same value as if the rest had been added.
* `Compositor.composite_reverse`: the two orders agree at every pixel.
-/

namespace SortLast

attribute [ext] Vec4

/-! ### Operators -/

section Operators

variable (b d s : Vec4 Rat)

theorem blendOver_eq :
    blendOver d s = ⟨s.x + d.x * (1 - s.w), s.y + d.y * (1 - s.w), s.z + d.z * (1 - s.w),
      s.w + d.w * (1 - s.w)⟩ := rfl

theorem blendOver_transparent : blendOver Framebuffer.transparent s = s := by
  rw [blendOver_eq]
  ext <;> simp [Framebuffer.transparent, Vec4.splat, Channel.zero]

theorem transparent_blendOver : blendOver s Framebuffer.transparent = s := by
  rw [blendOver_eq]
  ext <;> simp [Framebuffer.transparent, Vec4.splat, Channel.zero]

/-- What shows through two layers is what shows through their blend. -/
theorem blendOver_assoc : blendOver (blendOver b d) s = blendOver b (blendOver d s) := by
  simp only [blendOver_eq]
  ext <;> ring

end Operators

/-! ### Opacities -/

/-- A colour whose opacity lies between none and full. -/
def Vec4.Translucent (c : Vec4 Rat) : Prop := 0 ≤ c.w ∧ c.w ≤ 1

theorem transparent_translucent : (Framebuffer.transparent : Vec4 Rat).Translucent :=
  ⟨le_refl 0, zero_le_one⟩

theorem ofByte_eq (b : UInt8) : (Channel.ofByte b : Rat) = (b.toNat : Rat) / 255 := by
  show mkRat b.toNat 255 = _
  rw [Rat.mkRat_eq_div]
  simp

theorem Pixel.toColour_translucent (p : Pixel) : (p.toColour : Vec4 Rat).Translucent := by
  have hw : (p.toColour : Vec4 Rat).w = (p.a.toNat : Rat) / 255 := ofByte_eq p.a
  have hlt : (p.a.toNat : Rat) ≤ 255 := by exact_mod_cast Nat.le_of_lt_succ p.a.toNat_lt
  rw [Vec4.Translucent, hw]
  constructor
  · positivity
  · rw [div_le_one (by norm_num)]
    exact hlt

theorem Vec4.Translucent.blendOver {d s : Vec4 Rat} (hd : d.Translucent) (hs : s.Translucent) :
    (SortLast.blendOver d s).Translucent := by
  obtain ⟨hd0, hd1⟩ := hd
  obtain ⟨hs0, hs1⟩ := hs
  rw [Vec4.Translucent, blendOver_eq]
  dsimp only
  constructor
  · have hprod := mul_nonneg hd0 (sub_nonneg.2 hs1)
    linarith
  · have hprod := mul_le_of_le_one_left (sub_nonneg.2 hs1) hd1
    linarith

/-- To go under a colour is to have the colour put over. An opaque colour is left alone, which is what
the sum would have come to. -/
theorem blendUnder_eq {d : Vec4 Rat} (hd : d.Translucent) (s : Vec4 Rat) :
    blendUnder d s = blendOver s d := by
  show (if decide (1 ≤ d.w) then d else blendOver s d) = _
  by_cases hfull : 1 ≤ d.w
  · have hw : d.w = 1 := le_antisymm hd.2 hfull
    rw [decide_eq_true hfull, if_pos rfl, blendOver_eq]
    ext <;> simp [hw]
  · rw [decide_eq_false hfull]
    rfl

/-! ### Layers -/

/-- Layers over a background are the blended layers over that background. -/
theorem foldl_blendOver (layers : List (Vec4 Rat)) (b : Vec4 Rat) :
    layers.foldl blendOver b = blendOver b (layers.foldl blendOver Framebuffer.transparent) := by
  induction layers generalizing b with
  | nil => exact (transparent_blendOver b).symm
  | cons l layers ih =>
    rw [List.foldl_cons, List.foldl_cons, blendOver_transparent, ih, ih l, blendOver_assoc]

theorem foldl_blendOver_translucent {layers : List (Vec4 Rat)} (hl : ∀ l ∈ layers, l.Translucent)
    {b : Vec4 Rat} (hb : b.Translucent) : (layers.foldl blendOver b).Translucent := by
  induction layers generalizing b with
  | nil => exact hb
  | cons l layers ih =>
    rw [List.forall_mem_cons] at hl
    exact ih hl.2 (hb.blendOver hl.1)

/-- Layers gathered from the eye make what they make when they are gathered from behind. -/
theorem foldl_blendUnder_reverse {layers : List (Vec4 Rat)} (hl : ∀ l ∈ layers, l.Translucent) :
    layers.reverse.foldl blendUnder Framebuffer.transparent =
      layers.foldl blendOver Framebuffer.transparent := by
  induction layers with
  | nil => rfl
  | cons l layers ih =>
    rw [List.forall_mem_cons] at hl
    have hfront := foldl_blendOver_translucent hl.2 transparent_translucent
    rw [List.reverse_cons, List.foldl_append, ih hl.2, List.foldl_cons, List.foldl_nil,
      blendUnder_eq hfront, List.foldl_cons, blendOver_transparent, ← foldl_blendOver]

theorem Image.layers_reverse (images : List Image) (px py : Int) :
    layers images.reverse px py = (layers images px py).reverse :=
  List.filterMap_reverse

namespace Compositor

/-- What the two orders make of the same layers. -/
theorem blended_reverse (b d : Bool) (background : Vec4 Rat) {layers : List (Vec4 Rat)}
    (hl : ∀ l ∈ layers, l.Translucent) :
    blended ⟨.frontToBack, b⟩ background layers.reverse = blended ⟨.backToFront, d⟩ background layers := by
  show blendOver background (layers.reverse.foldl blendUnder Framebuffer.transparent) =
    layers.foldl blendOver background
  rw [foldl_blendUnder_reverse hl, ← foldl_blendOver]

/-- Over exact numbers, compositing images from back to front and compositing them in the reverse
order from front to back both succeed and leave the same colour at every pixel, whatever the
background, and whether depths are merged or not. -/
theorem composite_reverse (b d : Bool) {target : Framebuffer Rat} (ht : target.WellFormed)
    (background : Vec4 Rat) {images : List Image} (hi : ∀ i ∈ images, i.Addressable) :
    ∃ back fore, composite ⟨.backToFront, b⟩ target background images = .ok back ∧
      composite ⟨.frontToBack, d⟩ target background images.reverse = .ok fore ∧
      back.WellFormed ∧ back.width = target.width ∧ back.height = target.height ∧
      fore.width = target.width ∧ fore.height = target.height ∧ back.pixels = fore.pixels := by
  have hir : ∀ i ∈ images.reverse, i.Addressable := fun i h => hi i (List.mem_reverse.1 h)
  obtain ⟨back, hback, hb⟩ := composite_maps ⟨.backToFront, b⟩ ht background hi
  obtain ⟨fore, hfore, hf⟩ := composite_maps ⟨.frontToBack, d⟩ ht background hir
  refine ⟨back, fore, hback, hfore, hb.wellFormed, hb.width, hb.height, hf.width, hf.height, ?_⟩
  apply Array.ext
  · rw [hb.size, hf.size]
  intro k hk _
  rw [hb.size] at hk
  rw [hb.pixels k hk, hf.pixels k hk, Image.layers_reverse, List.map_reverse]
  refine (blended_reverse d b background ?_).symm
  rw [List.forall_mem_map]
  exact fun p _ => p.toColour_translucent

/-- The front image is opaque in the first column, where the one behind it is skipped, and has no pixel
in the last one; a malformed image between them counts for nothing in either order. -/
theorem composite_reverse_hidden :
    let front : Image := { rect := ⟨-1, 0, 2, 1⟩, colour := #[9, 9, 9, 255, 0, 255, 0, 255] }
    let malformed : Image := { rect := ⟨0, 0, 2, 1⟩, colour := #[1, 2, 3] }
    let behind : Image := { rect := ⟨0, 0, 2, 1⟩, colour := #[0, 0, 51, 51, 0, 0, 102, 102] }
    ∃ back fore : Framebuffer Rat,
      composite ⟨.backToFront, false⟩ (Framebuffer.blank 2 1) ⟨1, 0, 0, 1⟩ [behind, malformed, front] =
        .ok back ∧
      composite ⟨.frontToBack, true⟩ (Framebuffer.blank 2 1) ⟨1, 0, 0, 1⟩ [front, malformed, behind] =
        .ok fore ∧
      back.pixels = fore.pixels ∧ fore.pixels = #[⟨0, 1, 0, 1⟩, ⟨3 / 5, 0, 2 / 5, 1⟩] := by
  intro front malformed behind
  have hi : ∀ i ∈ [behind, malformed, front], i.Addressable := by
    simp only [List.forall_mem_cons, List.not_mem_nil, false_implies, implies_true, and_true]
    exact ⟨⟨by decide, by decide⟩, ⟨by decide, by decide⟩, ⟨by decide, by decide⟩⟩
  obtain ⟨back, fore, hback, hfore, -, -, -, -, -, hpixels⟩ :=
    composite_reverse false true (Framebuffer.blank_wellFormed 2 1) ⟨1, 0, 0, 1⟩ hi
  have hvalue : composite ⟨.frontToBack, true⟩ (Framebuffer.blank 2 1) (⟨1, 0, 0, 1⟩ : Vec4 Rat)
      [front, malformed, behind] =
        .ok ⟨2, 1, #[⟨0, 1, 0, 1⟩, ⟨3 / 5, 0, 2 / 5, 1⟩], some #[.infinity, .infinity]⟩ := by
    decide +kernel
  rw [show [front, malformed, behind] = [behind, malformed, front].reverse from rfl, hfore] at hvalue
  cases hvalue
  exact ⟨back, _, hback, hfore, hpixels, rfl⟩

end Compositor
end SortLast
