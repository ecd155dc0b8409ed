import SortLast.Proofs.Compositing.Pixels
import SortLast.Proofs.Scalar.Arithmetic
import SortLast.RenderState

/-!
# What lies behind an opaque pixel

In single precision, an opaque pixel in front is all that is seen of a window's pixel. From back to
front, whatever was gathered behind it is finite, and is multiplied by zero; from front to back, the
opacity is full after the first layer, and neither a farther layer nor the background is added. What is
left is the pixel's own colour, without a rounding error, so nothing behind it can be told apart.

* `Single.Fraction`: channels and opacities; what they leave of a finite scalar is finite.
* `Compositor.front?`: the nearest of layers that are given in the compositor's order.
* `Compositor.blended_opaque`: the colour of layers whose nearest one is opaque.
* `Compositor.composite_opaque`: two composites with the same opaque pixel in front agree there.
-/

namespace SortLast

/-! ### Channels in single precision -/

namespace Single

variable {x y d s u : Single}

/-- A finite scalar from zero to one. -/
structure Fraction (x : Single) : Prop where
  isFinite : x.isFinite
  nonneg : 0 ≤ x.toRat
  le_one : x.toRat ≤ 1

theorem Fraction.ofByte (b : UInt8) : (Channel.ofByte b : Single).Fraction := by
  obtain ⟨hfull, hvalue⟩ := toRat_ofNat (n := 255) (by decide)
  have hb : b.toNat ≤ 255 := Nat.le_of_lt_succ b.toNat_lt
  obtain ⟨hbyte, hbvalue⟩ := toRat_ofNat (n := b.toNat) (by omega)
  have hround : Rounded ((b.toNat : Rat) / 255) (Channel.ofByte b) := by
    have h := div_rounded hbyte hfull (by rw [hvalue]; norm_num)
    rwa [hbvalue, hvalue] at h
  have hle : (b.toNat : Rat) / 255 ≤ 1 := by
    rw [div_le_one (by norm_num)]
    exact_mod_cast hb
  obtain ⟨hfin, -, h0, h1⟩ := hround.between toRat_zero.1 toRat_one.1
    (by rw [toRat_zero.2]; positivity) (by rwa [toRat_one.2])
  rw [toRat_zero.2] at h0
  rw [toRat_one.2] at h1
  exact ⟨hfin, h0, h1⟩

theorem Fraction.complement (hu : u.Fraction) : (1 - u).Fraction := by
  have hround := sub_rounded toRat_one.1 hu.isFinite
  have hlo := hu.nonneg
  have hhi := hu.le_one
  obtain ⟨hfin, -, h0, h1⟩ := hround.between toRat_zero.1 toRat_one.1
    (by rw [toRat_zero.2, toRat_one.2]; linarith) (by rw [toRat_one.2]; linarith)
  rw [toRat_zero.2] at h0
  rw [toRat_one.2] at h1
  exact ⟨hfin, h0, h1⟩

/-- A fraction of a finite scalar lies between it and zero. -/
theorem Fraction.mul_isFinite (hu : u.Fraction) (hx : x.isFinite) : (x * u).isFinite := by
  rw [(mul_rounded hx hu.isFinite).isFinite_iff, abs_mul, abs_of_nonneg hu.nonneg]
  exact (mul_le_of_le_one_right (abs_nonneg _) hu.le_one).trans_lt (abs_toRat_lt hx)

/-- One more than the largest scalar is still rounded to it. -/
theorem Fraction.add_isFinite (hs : s.Fraction) (hx : x.isFinite) : (s + x).isFinite := by
  rw [(add_rounded hs.isFinite hx).isFinite_iff]
  calc |s.toRat + x.toRat| ≤ |s.toRat| + |x.toRat| := abs_add_le _ _
    _ ≤ 1 + (2 ^ 24 - 1) * 2 ^ (104 : Int) := by
      rw [abs_of_nonneg hs.nonneg]
      exact add_le_add hs.le_one (abs_toRat_le hx)
    _ < Format.binary32.limit := by norm_num [Format.limit, Format.binary32]

/-- A finite scalar is invisible where no opacity is left for it. -/
theorem add_mul_zero (hs : s.isFinite) (hd : d.isFinite) :
    (s + d * 0).isFinite ∧ (s + d * 0).toRat = s.toRat := by
  obtain ⟨hfin, hvalue⟩ := mul_zero_finite hd
  have hround := add_rounded hs hfin
  rw [hvalue, add_zero] at hround
  exact hround.eq hs

/-- A finite scalar is itself where nothing is in front of it. -/
theorem zero_add_mul_one (hs : s.isFinite) :
    (0 + s * 1).isFinite ∧ (0 + s * 1).toRat = s.toRat := by
  have hprod := mul_rounded hs toRat_one.1
  rw [toRat_one.2, mul_one] at hprod
  obtain ⟨hfin, hvalue⟩ := hprod.eq hs
  have hround := add_rounded toRat_zero.1 hfin
  rw [toRat_zero.2, zero_add, hvalue] at hround
  exact hround.eq hs

end Single

/-! ### Colours in single precision -/

namespace Vec4

variable {d s t u : Colour}

/-- Every component is finite. -/
def IsFinite (u : Colour) : Prop := u.x.isFinite ∧ u.y.isFinite ∧ u.z.isFinite ∧ u.w.isFinite

instance (u : Colour) : Decidable u.IsFinite := inferInstanceAs (Decidable (_ ∧ _))

/-- Every component is finite and the same number as that of another colour. -/
def Exact (u t : Colour) : Prop :=
  (u.x.isFinite ∧ u.x.toRat = t.x.toRat) ∧ (u.y.isFinite ∧ u.y.toRat = t.y.toRat) ∧
    (u.z.isFinite ∧ u.z.toRat = t.z.toRat) ∧ u.w.isFinite ∧ u.w.toRat = t.w.toRat

theorem IsFinite.exact (h : u.IsFinite) : u.Exact u :=
  ⟨⟨h.1, rfl⟩, ⟨h.2.1, rfl⟩, ⟨h.2.2.1, rfl⟩, h.2.2.2, rfl⟩

theorem Exact.isFinite (h : u.Exact t) : u.IsFinite := ⟨h.1.1, h.2.1.1, h.2.2.1.1, h.2.2.2.1⟩

theorem Exact.trans (h : u.Exact s) (h' : s.Exact t) : u.Exact t :=
  ⟨⟨h.1.1, h.1.2.trans h'.1.2⟩, ⟨h.2.1.1, h.2.1.2.trans h'.2.1.2⟩,
    ⟨h.2.2.1.1, h.2.2.1.2.trans h'.2.2.1.2⟩, h.2.2.2.1, h.2.2.2.2.trans h'.2.2.2.2⟩

/-- Two colours of the same numbers have the same value. -/
theorem Exact.sameValue (h : u.Exact t) (h' : s.Exact t) : u.sameValue s := by
  unfold Vec4.sameValue
  simp only [Bool.and_eq_true]
  obtain ⟨hx, hy, hz, hw⟩ := h
  obtain ⟨hx', hy', hz', hw'⟩ := h'
  exact ⟨⟨⟨(Single.sameValue_iff hx.1 hx'.1).2 (hx.2.trans hx'.2.symm),
    (Single.sameValue_iff hy.1 hy'.1).2 (hy.2.trans hy'.2.symm)⟩,
    (Single.sameValue_iff hz.1 hz'.1).2 (hz.2.trans hz'.2.symm)⟩,
    (Single.sameValue_iff hw.1 hw'.1).2 (hw.2.trans hw'.2.symm)⟩

theorem add_mul_zero (hs : s.IsFinite) (hd : d.IsFinite) : (s + d * (0 : Single)).Exact s :=
  ⟨Single.add_mul_zero hs.1 hd.1, Single.add_mul_zero hs.2.1 hd.2.1,
    Single.add_mul_zero hs.2.2.1 hd.2.2.1, Single.add_mul_zero hs.2.2.2 hd.2.2.2⟩

theorem transparent_add_mul_one (hs : s.IsFinite) :
    ((Framebuffer.transparent : Colour) + s * (1 : Single)).Exact s :=
  ⟨Single.zero_add_mul_one hs.1, Single.zero_add_mul_one hs.2.1,
    Single.zero_add_mul_one hs.2.2.1, Single.zero_add_mul_one hs.2.2.2⟩

end Vec4

theorem Pixel.toColour_isFinite (p : Pixel) : (p.toColour : Colour).IsFinite :=
  ⟨(Single.Fraction.ofByte p.r).isFinite, (Single.Fraction.ofByte p.g).isFinite,
    (Single.Fraction.ofByte p.b).isFinite, (Single.Fraction.ofByte p.a).isFinite⟩

/-- The opacity of an opaque pixel is full without a rounding error. -/
theorem Pixel.toColour_w {p : Pixel} (ha : p.a = 255) : (p.toColour : Colour).w = 1 := by
  show (Channel.ofByte p.a : Single) = 1
  rw [ha]
  decide

/-! ### Layers -/

/-- A pixel over finite colours makes finite colours. -/
theorem blendOver_isFinite {d : Colour} (hd : d.IsFinite) (p : Pixel) :
    (blendOver d p.toColour).IsFinite := by
  have hleft := (Single.Fraction.ofByte p.a).complement
  exact ⟨(Single.Fraction.ofByte p.r).add_isFinite (hleft.mul_isFinite hd.1),
    (Single.Fraction.ofByte p.g).add_isFinite (hleft.mul_isFinite hd.2.1),
    (Single.Fraction.ofByte p.b).add_isFinite (hleft.mul_isFinite hd.2.2.1),
    (Single.Fraction.ofByte p.a).add_isFinite (hleft.mul_isFinite hd.2.2.2)⟩

theorem foldl_blendOver_isFinite (layers : List Pixel) {d : Colour} (hd : d.IsFinite) :
    ((layers.map Pixel.toColour).foldl blendOver d).IsFinite := by
  induction layers generalizing d with
  | nil => exact hd
  | cons p layers ih => exact ih (blendOver_isFinite hd p)

/-- Under a full opacity, nothing is added. -/
theorem foldl_blendUnder_full (layers : List Colour) {d : Colour} (hd : d.w = 1) :
    layers.foldl blendUnder d = d := by
  induction layers with
  | nil => rfl
  | cons s layers ih =>
    have hfull : blendUnder d s = d := by
      rw [blendUnder, hd]
      exact if_pos (by decide)
    rw [List.foldl_cons, hfull, ih]

namespace Compositor

/-- The nearest of layers that are given in the compositor's order. -/
def front? {β : Type} (c : Compositor) (layers : List β) : Option β :=
  match c.order with
  | .backToFront => layers.getLast?
  | .frontToBack => layers.head?

/-- Layers whose nearest one is opaque have its colour, over every finite background. -/
theorem blended_opaque (c : Compositor) {background : Colour} (hb : background.IsFinite)
    {layers : List Pixel} {p : Pixel} (hp : c.front? layers = some p) (ha : p.a = 255) :
    (c.blended background (layers.map Pixel.toColour)).Exact p.toColour := by
  have hone : (1 - 1 : Single) = 0 := by decide
  have hsource := p.toColour_isFinite
  unfold front? at hp
  unfold blended
  cases horder : c.order with
  | backToFront =>
    rw [horder] at hp
    obtain ⟨behind, rfl⟩ := List.getLast?_eq_some_iff.1 hp
    simp only [List.map_append, List.foldl_append, List.map_cons, List.map_nil, List.foldl_cons,
      List.foldl_nil]
    have hd := foldl_blendOver_isFinite behind hb
    rw [blendOver, Pixel.toColour_w ha, show (Channel.one : Single) = 1 from rfl, hone]
    exact Vec4.add_mul_zero hsource hd
  | frontToBack =>
    rw [horder] at hp
    obtain ⟨behind, rfl⟩ := List.head?_eq_some_iff.1 hp
    have hfirst : blendUnder Framebuffer.transparent (p.toColour : Colour) =
        Framebuffer.transparent + (p.toColour : Colour) * (1 : Single) := by
      rw [blendUnder, if_neg (show ¬ Channel.isFull (Framebuffer.transparent : Colour).w by decide)]
      rfl
    have hfull : (Framebuffer.transparent + (p.toColour : Colour) * (1 : Single)).w = 1 := by
      show 0 + (p.toColour : Colour).w * 1 = 1
      rw [Pixel.toColour_w ha]
      decide
    have hd := Vec4.transparent_add_mul_one hsource
    simp only [List.map_cons, List.foldl_cons]
    rw [hfirst, foldl_blendUnder_full _ hfull, hfull, show (Channel.one : Single) = 1 from rfl, hone]
    exact (Vec4.add_mul_zero hd.isFinite hb).trans hd

/-- Where the nearest pixel of the well-formed images is opaque, compositing yields exactly that
pixel's colour, in either order, over every finite background. So nothing behind it can be told apart:
any other images with the same pixel in front, in either order and over any finite background, make the
same colour there. -/
theorem composite_opaque (c : Compositor) {target : Framebuffer Single} (ht : target.WellFormed)
    {background : Colour} (hb : background.IsFinite) {images : List Image}
    (hi : ∀ i ∈ images, i.Addressable) {x y : UInt32} (hx : x < target.width)
    (hy : y < target.height) {p : Pixel}
    (hp : c.front? (Image.layers images x.toNat y.toNat) = some p) (ha : p.a = 255) :
    ∃ result colour, c.composite target background images = .ok result ∧
      result.pixel x y = .ok colour ∧ colour.sameValue p.toColour ∧
      ∀ (c' : Compositor) (target' : Framebuffer Single) (background' : Colour)
        (images' : List Image), target'.WellFormed → x < target'.width → y < target'.height →
        background'.IsFinite → (∀ i ∈ images', i.Addressable) →
        c'.front? (Image.layers images' x.toNat y.toNat) = some p →
        ∃ result' colour', c'.composite target' background' images' = .ok result' ∧
          result'.pixel x y = .ok colour' ∧ colour.sameValue colour' := by
  obtain ⟨result, hresult, -, -, -, hpixel⟩ := c.composite_pixel ht background hi
  have hcolour := c.blended_opaque hb hp ha
  refine ⟨result, _, hresult, hpixel x y hx hy, hcolour.sameValue p.toColour_isFinite.exact, ?_⟩
  intro c' target' background' images' ht' hx' hy' hb' hi' hp'
  obtain ⟨result', hresult', -, -, -, hpixel'⟩ := c'.composite_pixel ht' background' hi'
  exact ⟨result', _, hresult', hpixel' x y hx' hy', hcolour.sameValue (c'.blended_opaque hb' hp' ha)⟩

/-- The second pixel of an image that begins to the left of the window hides, in the first column, a
translucent image over the largest background there is, and a black background just as well. -/
theorem composite_opaque_hidden :
    let front : Image := { rect := ⟨-1, 0, 2, 1⟩, colour := #[9, 9, 9, 9, 51, 0, 102, 255] }
    let malformed : Image := { rect := ⟨0, 0, 2, 1⟩, colour := #[1, 2, 3] }
    let behind : Image := { rect := ⟨0, 0, 1, 1⟩, colour := #[255, 255, 255, 7] }
    let largest : Single := ⟨0x7f7fffff⟩
    ∃ result colour result' colour',
      composite ⟨.backToFront, false⟩ (Framebuffer.blank 2 1) (Vec4.splat largest)
        [behind, front, malformed] = .ok result ∧
      result.pixel 0 0 = .ok colour ∧
      colour.sameValue (⟨51, 0, 102, 255⟩ : Pixel).toColour ∧
      composite ⟨.frontToBack, true⟩ (Framebuffer.blank 1 1) ⟨0, 0, 0, 1⟩ [front] = .ok result' ∧
      result'.pixel 0 0 = .ok colour' ∧ colour.sameValue colour' := by
  intro front malformed behind largest
  have hi : ∀ i ∈ [behind, front, malformed], i.Addressable := by
    simp only [List.forall_mem_cons, List.not_mem_nil, false_implies, implies_true, and_true]
    exact ⟨⟨by decide, by decide⟩, ⟨by decide, by decide⟩, ⟨by decide, by decide⟩⟩
  have hi' : ∀ i ∈ [front], i.Addressable := fun i hmem =>
    hi i (List.mem_cons_of_mem _ (List.mem_cons.2 (.inl (List.mem_singleton.1 hmem))))
  obtain ⟨result, colour, hresult, hpixel, hvalue, hother⟩ :=
    composite_opaque ⟨.backToFront, false⟩ (Framebuffer.blank_wellFormed 2 1)
      (show (Vec4.splat largest).IsFinite by decide) hi (x := 0) (y := 0) (by decide) (by decide)
      (p := ⟨51, 0, 102, 255⟩) (by decide) rfl
  obtain ⟨result', colour', hresult', hpixel', hsame⟩ :=
    hother ⟨.frontToBack, true⟩ (Framebuffer.blank 1 1) ⟨0, 0, 0, 1⟩ [front]
      (Framebuffer.blank_wellFormed 1 1) (by decide) (by decide) (by decide) hi' (by decide)
  exact ⟨result, colour, result', colour', hresult, hpixel, hvalue, hresult', hpixel', hsame⟩

/-- Over an infinite background, the product with zero is no number. -/
example : (blendOver (Vec4.splat .infinity) (⟨51, 0, 102, 255⟩ : Pixel).toColour : Colour).x.isNaN := by
  decide

end Compositor
end SortLast
