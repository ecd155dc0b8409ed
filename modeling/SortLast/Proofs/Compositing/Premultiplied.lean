import SortLast.Proofs.Compositing.Reversal

/-!
# Premultiplied colours

Over exact numbers, compositing premultiplied pixels over a premultiplied background leaves every pixel
of the window premultiplied, after every image and at the end. In either order a step puts one colour
over another, and what shows through of each channel is the same part of it as of the opacity. So no
channel leaves the range of a byte, and over an opaque background all is opaque.

* `Vec4.Premultiplied`, `Image.Premultiplied`: colour channels between none and the opacity.
* `Image.paint_forall`: what painting keeps, whatever the image.
* `Compositor.stage`: the window after some of the images; `Compositor.composite_eq_stage` says that
  compositing is the last stage, finished.
* `Compositor.composite_premultiplied`: every stage and the result are premultiplied.
-/

namespace SortLast

/-! ### Colours -/

/-- The colour channels lie between none and the opacity, and the opacity is at most full. -/
structure Vec4.Premultiplied (c : Vec4 Rat) : Prop where
  red : 0 ≤ c.x ∧ c.x ≤ c.w
  green : 0 ≤ c.y ∧ c.y ≤ c.w
  blue : 0 ≤ c.z ∧ c.z ≤ c.w
  opacity : c.w ≤ 1

/-- No colour byte is larger than the opacity. -/
def Pixel.Premultiplied (p : Pixel) : Prop := p.r ≤ p.a ∧ p.g ≤ p.a ∧ p.b ≤ p.a

instance (p : Pixel) : Decidable p.Premultiplied := inferInstanceAs (Decidable (_ ∧ _))

/-- Every pixel of the buffer is premultiplied. -/
def Image.Premultiplied (i : Image) : Prop := ∀ k, ∀ p ∈ i.pixelAt? k, p.Premultiplied

theorem Image.premultiplied_iff {i : Image} :
    i.Premultiplied ↔ ∀ k < i.pixelCount, ∀ p ∈ i.pixelAt? k, p.Premultiplied := by
  refine ⟨fun h k _ => h k, fun h k p hp => h k ?_ p hp⟩
  unfold pixelAt? at hp
  split at hp
  · unfold pixelCount
    omega
  · cases hp

instance (i : Image) : Decidable i.Premultiplied := decidable_of_iff _ Image.premultiplied_iff.symm

/-- Every pixel of the window is premultiplied. -/
def Framebuffer.Premultiplied (f : Framebuffer Rat) : Prop := ∀ p ∈ f.pixels, p.Premultiplied

theorem Vec4.Premultiplied.translucent {c : Vec4 Rat} (h : c.Premultiplied) : c.Translucent :=
  ⟨h.red.1.trans h.red.2, h.opacity⟩

theorem transparent_premultiplied : (Framebuffer.transparent : Vec4 Rat).Premultiplied :=
  ⟨⟨le_refl 0, le_refl 0⟩, ⟨le_refl 0, le_refl 0⟩, ⟨le_refl 0, le_refl 0⟩, zero_le_one⟩

theorem ofByte_le {b a : UInt8} (h : b ≤ a) :
    (0 : Rat) ≤ Channel.ofByte b ∧ (Channel.ofByte b : Rat) ≤ Channel.ofByte a := by
  have hle : (b.toNat : Rat) ≤ a.toNat := by exact_mod_cast UInt8.le_iff_toNat_le.1 h
  rw [ofByte_eq, ofByte_eq]
  constructor
  · positivity
  · gcongr

theorem Pixel.Premultiplied.toColour {p : Pixel} (h : p.Premultiplied) :
    (p.toColour : Vec4 Rat).Premultiplied :=
  ⟨ofByte_le h.1, ofByte_le h.2.1, ofByte_le h.2.2, p.toColour_translucent.2⟩

/-- What shows through of a channel is the same part as of the opacity. -/
theorem over_le {d dw s sw : Rat} (hd : 0 ≤ d ∧ d ≤ dw) (hs : 0 ≤ s ∧ s ≤ sw) (hw : sw ≤ 1) :
    0 ≤ s + d * (1 - sw) ∧ s + d * (1 - sw) ≤ sw + dw * (1 - sw) := by
  have hleft : 0 ≤ 1 - sw := sub_nonneg.2 hw
  constructor
  · exact add_nonneg hs.1 (mul_nonneg hd.1 hleft)
  · exact add_le_add hs.2 (mul_le_mul_of_nonneg_right hd.2 hleft)

theorem Vec4.Premultiplied.blendOver {d s : Vec4 Rat} (hd : d.Premultiplied)
    (hs : s.Premultiplied) : (SortLast.blendOver d s).Premultiplied where
  red := over_le hd.red hs.red hs.opacity
  green := over_le hd.green hs.green hs.opacity
  blue := over_le hd.blue hs.blue hs.opacity
  opacity := (hd.translucent.blendOver hs.translucent).2

theorem Vec4.Premultiplied.blendUnder {d s : Vec4 Rat} (hd : d.Premultiplied)
    (hs : s.Premultiplied) : (SortLast.blendUnder d s).Premultiplied := by
  rw [blendUnder_eq hd.translucent]
  exact hs.blendOver hd

/-- Whatever is put over an opaque colour, the result is opaque. -/
theorem blendOver_opaque {d : Vec4 Rat} (hd : d.w = 1) (s : Vec4 Rat) : (blendOver d s).w = 1 := by
  rw [blendOver_eq]
  show s.w + d.w * (1 - s.w) = 1
  rw [hd]
  ring

/-- A channel moved into an interval, as single-precision scalars are by `Single.clamp`. -/
def clampWithin {β : Type} [LT β] [DecidableLT β] (x lo hi : β) : β :=
  if x < lo then lo else if hi < x then hi else x

theorem clamp_eq_clampWithin (x lo hi : Single) : x.clamp lo hi = clampWithin x lo hi := rfl

theorem clampWithin_eq_self {x lo hi : Rat} (hlo : lo ≤ x) (hhi : x ≤ hi) :
    clampWithin x lo hi = x := by
  rw [clampWithin, if_neg (not_lt.2 hlo), if_neg (not_lt.2 hhi)]

theorem Vec4.Premultiplied.clamped {p : Vec4 Rat} (h : p.Premultiplied) :
    p.map (fun x => clampWithin x 0 1) = p := by
  have hone := h.opacity
  ext
  · exact clampWithin_eq_self h.red.1 (h.red.2.trans hone)
  · exact clampWithin_eq_self h.green.1 (h.green.2.trans hone)
  · exact clampWithin_eq_self h.blue.1 (h.blue.2.trans hone)
  · exact clampWithin_eq_self h.translucent.1 hone

/-! ### Painting -/

/-- Painting keeps what the painted function keeps at the pixels of the image. -/
theorem Image.paint_forall {β : Type} {P : β → Prop} {i : Image} {width height : UInt32}
    {pixels painted : Array β} {f : β → Pixel → Nat → β}
    (hf : ∀ dst src n, src ∈ i.pixelAt? n → P dst → P (f dst src n))
    (h : i.paint width height pixels f = .ok painted) (hp : ∀ p ∈ pixels, P p) :
    ∀ p ∈ painted, P p := by
  unfold paint at h
  split at h
  · cases h
    exact hp
  · split at h
    · cases h
      intro p hmem
      obtain ⟨k, hk, rfl⟩ := Array.mem_mapIdx.1 hmem
      have hdst := hp _ (Array.getElem_mem hk)
      split
      · exact hdst
      · split
        · exact hf _ _ _ ‹_› hdst
        · exact hdst
    · cases h

namespace Compositor

variable {α : Type} [Channel α]

theorem add_forall (c : Compositor) {P : Vec4 α → Prop} {op : Vec4 α → Vec4 α → Vec4 α} {i : Image}
    (hop : ∀ dst k, ∀ src ∈ i.pixelAt? k, P dst → P (op dst src.toColour)) {s t : Framebuffer α}
    (h : c.add op s i = .ok t) (hs : ∀ p ∈ s.pixels, P p) : ∀ p ∈ t.pixels, P p := by
  obtain ⟨pixels, depth, hpaint, rfl⟩ := add_cases h
  exact Image.paint_forall (fun dst src n hsrc => hop dst n src hsrc) hpaint hs

/-! ### Stages -/

/-- The operator of the order. -/
def operator (c : Compositor) : Vec4 α → Vec4 α → Vec4 α :=
  match c.order with
  | .backToFront => blendOver
  | .frontToBack => blendUnder

/-- The window before the first image: the background, or nothing yet. -/
def ground (c : Compositor) (target : Framebuffer α) (background : Vec4 α) : Framebuffer α :=
  (if c.depth then target.enableDepth else target).clear
    (match c.order with
    | .backToFront => background
    | .frontToBack => Framebuffer.transparent)

/-- The window after the first `n` images. -/
def stage (c : Compositor) (target : Framebuffer α) (background : Vec4 α) (images : List Image)
    (n : Nat) : Except Fault (Framebuffer α) :=
  (images.take n).foldlM (c.add c.operator) (c.ground target background)

/-- What is left to be done behind the last image: the background, if it is not there yet. -/
def finish (c : Compositor) (background : Vec4 α) (target : Framebuffer α) : Framebuffer α :=
  match c.order with
  | .backToFront => target
  | .frontToBack =>
    { target with
      pixels := target.pixels.map fun dst => dst + background * (Channel.one - dst.w : α) }

/-- Compositing is the last stage, finished. -/
theorem composite_eq_stage (c : Compositor) (target : Framebuffer α) (background : Vec4 α)
    (images : List Image) :
    c.composite target background images =
      (c.stage target background images images.length).map (c.finish background) := by
  have hmap : ∀ x : Except Fault (Framebuffer α), x = x.map fun t => t := fun x => by
    cases x <;> rfl
  unfold composite stage operator ground finish
  rw [List.take_length]
  cases c.order with
  | backToFront => exact hmap _
  | frontToBack => rfl

theorem ground_forall (c : Compositor) {P : Vec4 α → Prop} {target : Framebuffer α}
    {background : Vec4 α} (hback : c.order = .backToFront → P background)
    (hfront : c.order = .frontToBack → P Framebuffer.transparent) :
    ∀ p ∈ (c.ground target background).pixels, P p := by
  intro p hp
  obtain ⟨-, rfl⟩ := Array.mem_replicate.1 hp
  split
  · exact hback ‹_›
  · exact hfront ‹_›

/-- What holds of every pixel at first and is kept by the operator holds at every stage. -/
theorem stage_forall (c : Compositor) {P : Vec4 α → Prop} {target : Framebuffer α}
    {background : Vec4 α} {images : List Image} {n : Nat} {s : Framebuffer α}
    (hop : ∀ i ∈ images, ∀ dst k, ∀ src ∈ i.pixelAt? k, P dst → P (c.operator dst src.toColour))
    (hground : ∀ p ∈ (c.ground target background).pixels, P p)
    (h : c.stage target background images n = .ok s) : ∀ p ∈ s.pixels, P p := by
  unfold stage at h
  refine invariant_of_foldlM (P := fun t => ∀ p ∈ t.pixels, P p)
    (fun i hi s t hadd hs => ?_) h hground
  exact c.add_forall (hop i (List.mem_of_mem_take hi)) hadd hs

/-! ### Premultiplied windows -/

section

variable {target : Framebuffer Rat} {background : Vec4 Rat} {images : List Image} {s : Framebuffer Rat}

theorem stage_premultiplied (c : Compositor) (hb : background.Premultiplied)
    (hi : ∀ i ∈ images, i.Premultiplied) {n : Nat}
    (h : c.stage target background images n = .ok s) : s.Premultiplied := by
  refine c.stage_forall (fun i hmem dst k src hsrc hd => ?_)
    (c.ground_forall (fun _ => hb) fun _ => transparent_premultiplied) h
  have hsource := (hi i hmem k src hsrc).toColour
  cases horder : c.order with
  | backToFront =>
    rw [operator, horder]
    exact hd.blendOver hsource
  | frontToBack =>
    rw [operator, horder]
    exact hd.blendUnder hsource

theorem finish_premultiplied (c : Compositor) (hb : background.Premultiplied)
    (hs : s.Premultiplied) : (c.finish background s).Premultiplied := by
  unfold finish
  split
  · exact hs
  · intro p hp
    obtain ⟨dst, hdst, rfl⟩ := Array.mem_map.1 hp
    exact hb.blendOver (hs dst hdst)

/-- The background is opaque below the images, or behind them at the end. -/
theorem finish_opaque (c : Compositor) (hb : background.w = 1) {n : Nat}
    (h : c.stage target background images n = .ok s) :
    ∀ p ∈ (c.finish background s).pixels, p.w = 1 := by
  unfold finish
  cases horder : c.order with
  | backToFront =>
    refine c.stage_forall (P := fun p => p.w = 1) (fun i hmem dst k src hsrc hd => ?_)
      (c.ground_forall (fun _ => hb) fun hfront => ?_) h
    · rw [operator, horder]
      exact blendOver_opaque hd _
    · rw [horder] at hfront
      cases hfront
  | frontToBack =>
    intro p hp
    obtain ⟨dst, -, rfl⟩ := Array.mem_map.1 hp
    exact blendOver_opaque hb dst

/-- Over exact numbers, with a premultiplied background and premultiplied images, in either order: every
pixel is premultiplied after each of the images and at the end, where moving the channels into the range
of a byte changes none of them, and where every pixel is opaque if the background is. For images that
frames have carried, there is a result after each of them and at the end. -/
theorem composite_premultiplied (c : Compositor) (target : Framebuffer Rat)
    (hb : background.Premultiplied) (hi : ∀ i ∈ images, i.Premultiplied) :
    (∀ n s, c.stage target background images n = .ok s → s.Premultiplied) ∧
    (∀ result, c.composite target background images = .ok result →
      result.Premultiplied ∧ (∀ p ∈ result.pixels, p.map (fun x => clampWithin x 0 1) = p) ∧
      (background.w = 1 → ∀ p ∈ result.pixels, p.w = 1)) ∧
    (target.WellFormed → (∀ i ∈ images, i.Addressable) →
      (∀ n, ∃ s, c.stage target background images n = .ok s) ∧
      ∃ result, c.composite target background images = .ok result) := by
  refine ⟨fun n s => c.stage_premultiplied hb hi, fun result hresult => ?_,
    fun ht haddress => ⟨fun n => ?_, ?_⟩⟩
  · rw [composite_eq_stage] at hresult
    cases hstage : c.stage target background images images.length with
    | error f =>
      rw [hstage] at hresult
      cases hresult
    | ok s =>
      rw [hstage] at hresult
      cases hresult
      have hfinished := c.finish_premultiplied hb (c.stage_premultiplied hb hi hstage)
      exact ⟨hfinished, fun p hp => (hfinished p hp).clamped,
        fun hopaque => c.finish_opaque hopaque hstage⟩
  · have hground : (c.ground target background).WellFormed :=
      (enableDepth_maps ht c.depth).wellFormed.clear _
    obtain ⟨s, hs, -⟩ := c.addAll_maps c.operator hground fun i hmem =>
      haddress i (List.mem_of_mem_take hmem)
    exact ⟨s, hs⟩
  · obtain ⟨result, hresult, -⟩ := c.composite_pixel ht background haddress
    exact ⟨result, hresult⟩

/-- Two translucent images overlap in the second column, the nearer one first; one of them reaches
beyond the window. -/
theorem composite_premultiplied_overlap :
    let near : Image := { rect := ⟨0, 0, 2, 1⟩, colour := #[51, 0, 51, 102, 204, 204, 0, 204] }
    let far : Image := { rect := ⟨1, 0, 2, 1⟩, colour := #[0, 20, 30, 51, 255, 255, 255, 255] }
    let background : Vec4 Rat := ⟨1 / 2, 0, 1, 1⟩
    background.Premultiplied ∧ near.Premultiplied ∧ far.Premultiplied ∧
      ∃ s result : Framebuffer Rat,
        stage ⟨.frontToBack, true⟩ (Framebuffer.blank 2 1) background [near, far] 1 = .ok s ∧
        s.Premultiplied ∧
        composite ⟨.frontToBack, true⟩ (Framebuffer.blank 2 1) background [near, far] = .ok result ∧
        result.Premultiplied ∧ ∀ p ∈ result.pixels, p.w = 1 := by
  intro near far background
  have hb : background.Premultiplied :=
    ⟨by decide +kernel, by decide +kernel, by decide +kernel, by decide +kernel⟩
  have hnear : near.Premultiplied := by decide
  have hfar : far.Premultiplied := by decide
  have hi : ∀ i ∈ [near, far], i.Premultiplied := by
    simp only [List.forall_mem_cons, List.not_mem_nil, false_implies, implies_true, and_true]
    exact ⟨hnear, hfar⟩
  have haddress : ∀ i ∈ [near, far], i.Addressable := by
    simp only [List.forall_mem_cons, List.not_mem_nil, false_implies, implies_true, and_true]
    exact ⟨⟨by decide, by decide⟩, ⟨by decide, by decide⟩⟩
  obtain ⟨hstages, hresults, hreturns⟩ :=
    composite_premultiplied ⟨.frontToBack, true⟩ (Framebuffer.blank 2 1) hb hi
  obtain ⟨hstage, result, hresult⟩ := hreturns (Framebuffer.blank_wellFormed 2 1) haddress
  obtain ⟨s, hs⟩ := hstage 1
  obtain ⟨hpremultiplied, -, hopaque⟩ := hresults result hresult
  exact ⟨hb, hnear, hfar, s, result, hs, hstages 1 s hs, hresult, hpremultiplied, hopaque rfl⟩

end

end Compositor
end SortLast
