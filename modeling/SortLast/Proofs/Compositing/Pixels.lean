import SortLast.Proofs.Compositing.Placement
import SortLast.Proofs.Outcome

/-!
# What compositing makes of every pixel

The pixels of a composited window, one at a time: the images that have a pixel there are folded with
the operator of the order, and all other images leave it as it is.

* `Framebuffer.WellFormed`: the buffers fit the window; every operation keeps them so.
* `Image.layers`: the pixels that a list of images has at one place.
* `Compositor.blended`: the colour that an order makes of layers and a background.
* `Compositor.composite_pixel`: compositing yields exactly that, everywhere, and cannot fail.
-/

namespace SortLast

/-! ### Well-formed framebuffers -/

namespace Framebuffer

variable {α : Type}

/-- A colour for every pixel of the window, and a depth for every pixel if depths are kept. -/
structure WellFormed (f : Framebuffer α) : Prop where
  pixels : f.pixels.size = area f.width f.height
  depth : ∀ d ∈ f.depth, d.size = area f.width f.height

theorem WellFormed.clear {f : Framebuffer α} (h : f.WellFormed) (colour : Vec4 α) :
    (f.clear colour).WellFormed where
  pixels := Array.size_replicate.trans h.pixels
  depth d hd := by
    obtain ⟨e, he, rfl⟩ := Option.map_eq_some_iff.1 hd
    rw [Array.size_replicate]
    exact h.depth e he

theorem WellFormed.enableDepth {f : Framebuffer α} (h : f.WellFormed) :
    f.enableDepth.WellFormed := by
  unfold Framebuffer.enableDepth
  split
  · exact h
  · refine ⟨h.pixels, ?_⟩
    rintro d hd
    cases hd
    rw [Array.size_replicate]
    exact h.pixels

section

variable [Channel α]

theorem blank_wellFormed (width height : UInt32) :
    (blank width height : Framebuffer α).WellFormed where
  pixels := Array.size_replicate
  depth _ hd := by cases hd

end

/-- The position of a pixel of the window, its column and its row. -/
theorem WellFormed.index_spec {f : Framebuffer α} (h : f.WellFormed) {x y : UInt32}
    (hx : x < f.width) (hy : y < f.height) :
    f.index x y < f.pixels.size ∧ f.index x y % f.width.toNat = x.toNat ∧
      f.index x y / f.width.toNat = y.toNat := by
  rw [UInt32.lt_iff_toNat_lt] at hx hy
  have hw : 0 < f.width.toNat := Nat.lt_of_le_of_lt (Nat.zero_le _) hx
  have hi : f.index x y = x.toNat + f.width.toNat * y.toNat := by
    rw [index, Nat.mul_comm, Nat.add_comm]
  refine ⟨?_, ?_, ?_⟩
  · calc f.index x y
        < f.width.toNat + f.width.toNat * y.toNat := by rw [hi]; exact Nat.add_lt_add_right hx _
      _ = f.width.toNat * (y.toNat + 1) := by rw [Nat.mul_succ, Nat.add_comm]
      _ ≤ f.width.toNat * f.height.toNat := Nat.mul_le_mul_left _ hy
      _ = f.pixels.size := h.pixels.symm
  · rw [hi, Nat.add_mul_mod_self_left, Nat.mod_eq_of_lt hx]
  · rw [hi, Nat.add_mul_div_left _ _ hw, Nat.div_eq_of_lt hx, Nat.zero_add]

end Framebuffer

/-! ### Layers -/

/-- The pixels that images have at a column and row of the window, in the order of the images. -/
def Image.layers (images : List Image) (px py : Int) : List Pixel :=
  images.filterMap fun i => if h : i.Shows px py then some (i.source px py h) else none

namespace Compositor

variable {α : Type}

/-- The colour of layers over a background: from back to front the layers are put over the background,
from front to back they are put under one another, and the background shows through what opacity they
leave. -/
def blended [Channel α] (c : Compositor) (background : Vec4 α) (layers : List (Vec4 α)) : Vec4 α :=
  match c.order with
  | .backToFront => layers.foldl blendOver background
  | .frontToBack =>
    let dst := layers.foldl blendUnder Framebuffer.transparent
    dst + background * (Channel.one - dst.w : α)

/-! ### Windows, pixel by pixel -/

/-- The window of `s`, each of its pixels changed by `f`, which is told the column and row. -/
structure Maps (s t : Framebuffer α) (f : Int → Int → Vec4 α → Vec4 α) : Prop where
  width : t.width = s.width
  height : t.height = s.height
  wellFormed : t.WellFormed
  size : t.pixels.size = s.pixels.size
  pixels : ∀ (k : Nat) (hk : k < s.pixels.size),
    t.pixels[k] = f (k % s.width.toNat : Nat) (k / s.width.toNat : Nat) s.pixels[k]

theorem Maps.trans {s t u : Framebuffer α} {f g : Int → Int → Vec4 α → Vec4 α} (hst : Maps s t f)
    (htu : Maps t u g) : Maps s u fun px py dst => g px py (f px py dst) where
  width := htu.width.trans hst.width
  height := htu.height.trans hst.height
  wellFormed := htu.wellFormed
  size := htu.size.trans hst.size
  pixels k hk := by
    rw [htu.pixels k (hst.size ▸ hk), hst.pixels k hk, hst.width]

theorem clear_maps {target : Framebuffer α} (ht : target.WellFormed) (colour : Vec4 α) :
    Maps target (target.clear colour) fun _ _ _ => colour :=
  ⟨rfl, rfl, ht.clear colour, Array.size_replicate, fun _ _ => Array.getElem_replicate _⟩

theorem enableDepth_maps {target : Framebuffer α} (ht : target.WellFormed) (on : Bool) :
    Maps target (if on then target.enableDepth else target) fun _ _ dst => dst := by
  cases on with
  | false => exact ⟨rfl, rfl, ht, rfl, fun _ _ => rfl⟩
  | true =>
    have hw := ht.enableDepth
    simp only [if_true]
    unfold Framebuffer.enableDepth at *
    split at hw <;> exact ⟨rfl, rfl, hw, rfl, fun _ _ => rfl⟩

/-- Merging depths changes the depths at most. -/
theorem mergeDepth_cases {s t : Framebuffer α} {i : Image} (h : mergeDepth s i = .ok t) :
    ∃ depth, t = { s with depth } := by
  unfold mergeDepth at h
  split at h
  · split at h
    · cases h
      exact ⟨s.depth, rfl⟩
    · obtain ⟨depth, -, h⟩ := ok_of_bind h
      cases h
      exact ⟨some depth, rfl⟩
  · cases h
    exact ⟨s.depth, rfl⟩

theorem mergeDepth_maps {target : Framebuffer α} (ht : target.WellFormed) {i : Image}
    (hi : i.Addressable) :
    ∃ result, mergeDepth target i = .ok result ∧ Maps target result fun _ _ dst => dst := by
  have hself : Maps target target fun _ _ dst => dst := ⟨rfl, rfl, ht, rfl, fun _ _ => rfl⟩
  unfold mergeDepth
  split
  · rename_i samples held _ hheld
    split
    · exact ⟨target, rfl, hself⟩
    · obtain ⟨depth, hpaint, hs, -⟩ := Image.paint_eq hi (ht.depth held hheld) fun dst src n =>
        if src.a = 0 then dst else dst.min (samples.getD n .infinity)
      refine ⟨{ target with depth := some depth }, ?_, rfl, rfl, ⟨ht.pixels, ?_⟩, rfl, fun _ _ => rfl⟩
      · rw [hpaint]
        rfl
      · rintro d hd
        cases hd
        exact hs.trans (ht.depth held hheld)
  · exact ⟨target, rfl, hself⟩

variable [Channel α]

/-! ### Images -/

/-- What becomes of the colour held at a column and row of the window. -/
def step (op : Vec4 α → Vec4 α → Vec4 α) (px py : Int) (dst : Vec4 α) (i : Image) : Vec4 α :=
  if h : i.Shows px py then op dst (i.source px py h).toColour else dst

theorem foldl_step (op : Vec4 α → Vec4 α → Vec4 α) (px py : Int) (images : List Image)
    (dst : Vec4 α) :
    images.foldl (step op px py) dst = ((Image.layers images px py).map Pixel.toColour).foldl op dst := by
  rw [Image.layers, List.foldl_map, List.foldl_filterMap]
  congr
  funext dst i
  unfold step
  by_cases h : i.Shows px py
  · rw [dif_pos h, dif_pos h]
  · rw [dif_neg h, dif_neg h]

theorem blend_maps (op : Vec4 α → Vec4 α → Vec4 α) {target : Framebuffer α} (ht : target.WellFormed)
    {i : Image} (hi : i.Addressable) :
    ∃ result, blend op target i = .ok result ∧ result.depth = target.depth ∧
      Maps target result fun px py dst => step op px py dst i := by
  obtain ⟨painted, hpaint, hs, hpixels⟩ :=
    Image.paint_eq hi ht.pixels fun dst src _ => op dst src.toColour
  refine ⟨{ target with pixels := painted }, ?_, rfl, rfl, rfl, ⟨hs.trans ht.pixels, ht.depth⟩, hs,
    hpixels⟩
  rw [blend, hpaint]
  rfl

/-- What adding an image changes: it is painted, and the depths may be others. -/
theorem add_cases {c : Compositor} {op : Vec4 α → Vec4 α → Vec4 α} {s t : Framebuffer α} {i : Image}
    (h : c.add op s i = .ok t) :
    ∃ pixels depth,
      i.paint s.width s.height s.pixels (fun dst src _ => op dst src.toColour) = .ok pixels ∧
      t = { s with pixels, depth } := by
  obtain ⟨blended, hblend, h⟩ := ok_of_bind h
  obtain ⟨pixels, hpaint, hblend⟩ := ok_of_bind hblend
  cases hblend
  split at h
  · obtain ⟨depth, rfl⟩ := mergeDepth_cases h
    exact ⟨pixels, depth, hpaint, rfl⟩
  · cases h
    exact ⟨pixels, s.depth, hpaint, rfl⟩

/-- An addressable image is added without a fault, and every pixel makes one step. -/
theorem add_maps (c : Compositor) (op : Vec4 α → Vec4 α → Vec4 α) {target : Framebuffer α}
    (ht : target.WellFormed) {i : Image} (hi : i.Addressable) :
    ∃ result, c.add op target i = .ok result ∧
      Maps target result fun px py dst => step op px py dst i := by
  obtain ⟨t, hblend, -, hmaps⟩ := blend_maps op ht hi
  unfold add
  rw [hblend]
  by_cases hd : c.depth
  · obtain ⟨u, hmerge, hkeeps⟩ := mergeDepth_maps hmaps.wellFormed hi
    refine ⟨u, ?_, hmaps.trans hkeeps⟩
    simp only [hd]
    exact hmerge
  · refine ⟨t, ?_, hmaps⟩
    simp only [hd]
    rfl

/-- Images are added one after the other, and every pixel is folded over them. -/
theorem addAll_maps (c : Compositor) (op : Vec4 α → Vec4 α → Vec4 α) {target : Framebuffer α}
    (ht : target.WellFormed) {images : List Image} (hi : ∀ i ∈ images, i.Addressable) :
    ∃ result, images.foldlM (c.add op) target = .ok result ∧
      Maps target result fun px py dst => images.foldl (step op px py) dst := by
  induction images generalizing target with
  | nil => exact ⟨target, rfl, rfl, rfl, ht, rfl, fun _ _ => rfl⟩
  | cons i images ih =>
    rw [List.forall_mem_cons] at hi
    obtain ⟨t, hadd, hmaps⟩ := c.add_maps op ht hi.1
    obtain ⟨u, hrest, hmapsRest⟩ := ih hmaps.wellFormed hi.2
    refine ⟨u, ?_, hmaps.trans hmapsRest⟩
    rw [List.foldlM_cons, hadd]
    exact hrest

/-- Under layers, the background shows through what opacity they leave. -/
theorem underlay_maps {target : Framebuffer α} (ht : target.WellFormed) (background : Vec4 α) :
    Maps target
      { target with
        pixels := target.pixels.map fun dst => dst + background * (Channel.one - dst.w : α) }
      fun _ _ dst => dst + background * (Channel.one - dst.w : α) :=
  ⟨rfl, rfl, ⟨Array.size_map.trans ht.pixels, ht.depth⟩, Array.size_map,
    fun _ _ => by simp only [Array.getElem_map]⟩

theorem composite_maps (c : Compositor) {target : Framebuffer α} (ht : target.WellFormed)
    (background : Vec4 α) {images : List Image} (hi : ∀ i ∈ images, i.Addressable) :
    ∃ result, c.composite target background images = .ok result ∧
      Maps target result fun px py _ =>
        c.blended background ((Image.layers images px py).map Pixel.toColour) := by
  have hdepth := enableDepth_maps ht c.depth
  unfold composite blended
  cases c.order with
  | backToFront =>
    have hclear := clear_maps hdepth.wellFormed background
    obtain ⟨t, hall, hmaps⟩ := c.addAll_maps blendOver hclear.wellFormed hi
    refine ⟨t, hall, ?_⟩
    simp only [← foldl_step]
    exact (hdepth.trans hclear).trans hmaps
  | frontToBack =>
    have hclear := clear_maps hdepth.wellFormed (Framebuffer.transparent : Vec4 α)
    obtain ⟨t, hall, hmaps⟩ := c.addAll_maps blendUnder hclear.wellFormed hi
    refine ⟨_, by simp only [hall]; rfl, ?_⟩
    simp only [← foldl_step]
    exact ((hdepth.trans hclear).trans hmaps).trans (underlay_maps hmaps.wellFormed background)

/-- Compositing images that frames have carried cannot fail. It leaves the window's size, and every
pixel becomes what the order makes, over the background, of the pixels that the well-formed images
have at its place, in the order of the images. -/
theorem composite_pixel (c : Compositor) {target : Framebuffer α} (ht : target.WellFormed)
    (background : Vec4 α) {images : List Image} (hi : ∀ i ∈ images, i.Addressable) :
    ∃ result, c.composite target background images = .ok result ∧ result.width = target.width ∧
      result.height = target.height ∧ result.WellFormed ∧
      ∀ x y, x < target.width → y < target.height →
        result.pixel x y =
          .ok (c.blended background ((Image.layers images x.toNat y.toNat).map Pixel.toColour)) := by
  obtain ⟨result, hresult, hmaps⟩ := c.composite_maps ht background hi
  refine ⟨result, hresult, hmaps.width, hmaps.height, hmaps.wellFormed, ?_⟩
  intro x y hx hy
  obtain ⟨hlt, hcol, hrow⟩ := ht.index_spec hx hy
  have hindex : result.index x y = target.index x y := by
    rw [Framebuffer.index, Framebuffer.index, hmaps.width]
  have hpixel := hmaps.pixels _ hlt
  rw [hcol, hrow] at hpixel
  rw [Framebuffer.pixel, hindex, Array.getElem?_eq_getElem (hmaps.size ▸ hlt), ← hpixel]

/-- An image that begins to the left of the window shows its second pixel in the first column. -/
theorem composite_pixel_left_overhang :
    ∃ result : Framebuffer Rat,
      composite {} (Framebuffer.blank 2 1) ⟨0, 0, 0, 1⟩
        [{ rect := ⟨-1, 0, 2, 1⟩, colour := #[255, 0, 0, 255, 0, 255, 0, 255] }] = .ok result ∧
      result.pixel 0 0 = .ok ⟨0, 1, 0, 1⟩ ∧ result.pixel 1 0 = .ok ⟨0, 0, 0, 1⟩ := by
  have hi : ∀ i ∈ [({ rect := ⟨-1, 0, 2, 1⟩, colour := #[255, 0, 0, 255, 0, 255, 0, 255] } : Image)],
      i.Addressable := List.forall_mem_singleton.2 ⟨by decide, by decide⟩
  obtain ⟨result, hresult, -, -, -, hpixel⟩ :=
    composite_pixel {} (Framebuffer.blank_wellFormed 2 1) (⟨0, 0, 0, 1⟩ : Vec4 Rat) hi
  refine ⟨result, hresult, ?_, ?_⟩
  · rw [hpixel 0 0 (by decide) (by decide)]
    decide +kernel
  · rw [hpixel 1 0 (by decide) (by decide)]
    decide +kernel

end Compositor
end SortLast
