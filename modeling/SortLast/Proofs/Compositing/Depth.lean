import SortLast.Proofs.Compositing.Pixels
import SortLast.Proofs.Scalar.Order

/-!
# What compositing makes of every depth

The depths of a composited window, one at a time: of the images that have an opacity at a place and
depths that fit their rectangle, the nearest sample stays. Samples that are no numbers are ignored, so
neither the order of the images nor anything that was in the window before makes a difference.

* `Single.nearest`: the nearest of some depths; `Single.IsNearest` says what that is.
* `Image.samples`: the depths that a list of images has at one place.
* `Framebuffer.Depths`: the depths of a window, by column and row.
* `Compositor.composite_depth`: compositing yields the nearest sample everywhere.
-/

namespace SortLast

/-! ### The nearest depth -/

namespace Single

variable {a b d e : Single} {xs ys : List Single}

theorem min_le_left (ha : a.isNaN = false) : a.min b ≤ a := by
  unfold Single.min
  rw [if_neg (Bool.eq_false_iff.1 ha)]
  split
  · exact le_refl ha
  · split
    · exact le_of_lt ‹_›
    · exact le_refl ha

theorem min_le_right (hb : b.isNaN = false) : a.min b ≤ b := by
  unfold Single.min
  rw [if_neg (Bool.eq_false_iff.1 hb)]
  split
  · exact le_refl hb
  · rename_i ha
    split
    · exact le_refl hb
    · rename_i hlt
      have ha' : a.isNaN = false := Bool.eq_false_iff.2 ha
      rw [← not_le_iff ha' hb, not_not] at hlt
      exact hlt

theorem min_choice (a b : Single) : a.min b = a ∨ a.min b = b := by
  unfold Single.min
  split
  · exact .inr rfl
  · split
    · exact .inl rfl
    · split
      · exact .inr rfl
      · exact .inl rfl

theorem sameValue_of_le_of_le (hab : a ≤ b) (hba : b ≤ a) : a.sameValue b := by
  rw [le_iff] at hab hba
  simp [sameValue, hab.1, hab.2.1, Int.le_antisymm hab.2.2 hba.2.2]

/-- The nearest of some depths, infinity if there is none. -/
def nearest (depths : List Single) : Single := depths.foldl Single.min infinity

/-- `d` is one of the depths, or infinity, and no depth that is a number is nearer. -/
structure IsNearest (depths : List Single) (d : Single) : Prop where
  number : d.isNaN = false
  mem : d = infinity ∨ d ∈ depths
  le : ∀ v ∈ depths, v.isNaN = false → d ≤ v

theorem foldl_min_le (ha : a.isNaN = false) : xs.foldl Single.min a ≤ a := by
  induction xs generalizing a with
  | nil => exact le_refl ha
  | cons x xs ih =>
    have hmin : a.min x ≤ a := min_le_left ha
    exact le_trans (ih (le_iff.1 hmin).1) hmin

theorem foldl_min_le_of_mem (ha : a.isNaN = false) (hb : b ∈ xs) (hnumber : b.isNaN = false) :
    xs.foldl Single.min a ≤ b := by
  induction xs generalizing a with
  | nil => exact absurd hb List.not_mem_nil
  | cons x xs ih =>
    have hmin : (a.min x).isNaN = false := (le_iff.1 (min_le_left ha)).1
    rw [List.foldl_cons]
    rcases List.mem_cons.1 hb with rfl | hb
    · exact le_trans (foldl_min_le hmin) (min_le_right hnumber)
    · exact ih hmin hb

theorem foldl_min_mem (xs : List Single) (a : Single) :
    xs.foldl Single.min a = a ∨ xs.foldl Single.min a ∈ xs := by
  induction xs generalizing a with
  | nil => exact .inl rfl
  | cons x xs ih =>
    rw [List.foldl_cons, List.mem_cons]
    rcases ih (a.min x) with h | h
    · rw [h]
      exact (min_choice a x).imp_right .inl
    · exact .inr (.inr h)

theorem isNearest_nearest (depths : List Single) : IsNearest depths (nearest depths) where
  number := (le_iff.1 (show nearest depths ≤ infinity from foldl_min_le rfl)).1
  mem := foldl_min_mem depths infinity
  le _ hv hnumber := foldl_min_le_of_mem rfl hv hnumber

/-- The nearest of more depths is not farther. -/
theorem IsNearest.le_of_subset (hd : IsNearest xs d) (he : IsNearest ys e) (hsub : ys ⊆ xs) :
    d ≤ e := by
  rcases he.mem with rfl | hmem
  · exact le_infinity hd.number
  · exact hd.le e (hsub hmem) he.number

/-- In which order depths are looked at matters for the sign of a zero at most. -/
theorem nearest_perm (h : xs.Perm ys) : (nearest xs).sameValue (nearest ys) :=
  sameValue_of_le_of_le
    ((isNearest_nearest xs).le_of_subset (isNearest_nearest ys) h.symm.subset)
    ((isNearest_nearest ys).le_of_subset (isNearest_nearest xs) h.subset)

end Single

/-! ### Samples -/

namespace Image

/-- The depth of an image at a column and row of the window, if it has one there: its buffers fit its
rectangle, and it has some opacity there. -/
def sample? (i : Image) (px py : Int) : Option Single :=
  if h : i.Shows px py then
    if (i.source px py h).a = 0 then none
    else i.depth.bind fun d => if d.size = i.rect.area then d[i.index px py]? else none
  else none

/-- The depths that images have at a column and row of the window, in the order of the images. -/
def samples (images : List Image) (px py : Int) : List Single :=
  images.filterMap fun i => i.sample? px py

/-- The depth held at a column and row of the window, or the image's if that is nearer. -/
def deepen (px py : Int) (held : Single) (i : Image) : Single :=
  match i.sample? px py with
  | some v => held.min v
  | none => held

theorem foldl_deepen (px py : Int) (images : List Image) (held : Single) :
    images.foldl (deepen px py) held = (samples images px py).foldl Single.min held := by
  rw [samples, List.foldl_filterMap]
  congr
  funext held i
  unfold deepen
  cases i.sample? px py <;> rfl

variable {i : Image} {px py : Int} {d : Array Single}

theorem deepen_of_no_depth (h : ∀ d ∈ i.depth, d.size ≠ i.rect.area) (held : Single) :
    deepen px py held i = held := by
  have hnone : (i.depth.bind fun d => if d.size = i.rect.area then d[i.index px py]? else none) =
      none := by
    cases hd : i.depth with
    | none => rfl
    | some d => exact if_neg (h d hd)
  unfold deepen sample?
  rw [hnone]
  split
  · rename_i v hv
    split at hv
    · split at hv <;> cases hv
    · cases hv
  · rfl

theorem deepen_of_depth (hd : i.depth = some d) (hsize : d.size = i.rect.area) (held : Single) :
    deepen px py held i =
      if h : i.Shows px py then
        if (i.source px py h).a = 0 then held else held.min (d.getD (i.index px py) .infinity)
      else held := by
  unfold deepen sample?
  by_cases h : i.Shows px py
  · have hlt : i.index px py < d.size := hsize ▸ h.index_lt
    rw [dif_pos h, dif_pos h, hd]
    by_cases ha : (i.source px py h).a = 0
    · rw [if_pos ha, if_pos ha]
    · rw [if_neg ha, if_neg ha, Option.bind_some, if_pos hsize, Array.getElem?_eq_getElem hlt,
        Array.getD_eq_getD_getElem?, Array.getElem?_eq_getElem hlt, Option.getD_some]
  · rw [dif_neg h, dif_neg h]

end Image

/-! ### Windows, depth by depth -/

namespace Framebuffer

/-- The window keeps depths, and `g` tells them by column and row. -/
structure Depths {α : Type} (f : Framebuffer α) (g : Int → Int → Single) : Prop where
  wellFormed : f.WellFormed
  plane : ∃ d, f.depth = some d ∧ ∀ (k : Nat) (hk : k < d.size),
    d[k] = g (k % f.width.toNat : Nat) (k / f.width.toNat : Nat)

end Framebuffer

namespace Compositor

variable {α : Type} [Channel α] {target : Framebuffer α} {g : Int → Int → Single}

omit [Channel α] in
theorem clear_depths (ht : target.WellFormed) (colour : Vec4 α) :
    (target.enableDepth.clear colour).Depths fun _ _ => .infinity := by
  refine ⟨ht.enableDepth.clear colour, ?_⟩
  have hsome : ∃ d, target.enableDepth.depth = some d := by
    unfold Framebuffer.enableDepth
    split
    · exact ⟨_, ‹_›⟩
    · exact ⟨_, rfl⟩
  obtain ⟨d, hd⟩ := hsome
  refine ⟨Array.replicate d.size .infinity, ?_, fun k hk => Array.getElem_replicate _⟩
  rw [Framebuffer.clear, hd]
  rfl

omit [Channel α] in
/-- One image after the other deepens every depth. -/
theorem mergeDepth_depths (ht : target.Depths g) {i : Image} (hi : i.Addressable) :
    ∃ result, mergeDepth target i = .ok result ∧ result.width = target.width ∧
      result.height = target.height ∧ result.Depths fun px py => i.deepen px py (g px py) := by
  obtain ⟨held, hheld, hplane⟩ := ht.plane
  obtain ⟨result, hmerge, hmaps⟩ := mergeDepth_maps ht.wellFormed hi
  refine ⟨result, hmerge, hmaps.width, hmaps.height, hmaps.wellFormed, ?_⟩
  rw [hmaps.width]
  -- an image without fitting depths leaves the plane alone
  have hskip : result = target → (∀ d ∈ i.depth, d.size ≠ i.rect.area) →
      ∃ d, result.depth = some d ∧ ∀ (k : Nat) (hk : k < d.size),
        d[k] = i.deepen (k % target.width.toNat : Nat) (k / target.width.toNat : Nat)
          (g (k % target.width.toNat : Nat) (k / target.width.toNat : Nat)) := by
    rintro rfl hno
    refine ⟨held, hheld, fun k hk => ?_⟩
    rw [Image.deepen_of_no_depth hno]
    exact hplane k hk
  unfold mergeDepth at hmerge
  rw [hheld] at hmerge
  cases hd : i.depth with
  | none =>
    rw [hd] at hmerge
    cases hmerge
    exact hskip rfl (by rw [hd]; nofun)
  | some samples =>
    rw [hd] at hmerge
    simp only at hmerge
    split at hmerge
    · rename_i hsize
      cases hmerge
      refine hskip rfl ?_
      rw [hd]
      rintro d hmem
      cases hmem
      exact hsize
    · rename_i hsize
      rw [not_not] at hsize
      obtain ⟨painted, hpaint, hs, hpixels⟩ :=
        Image.paint_eq hi (ht.wellFormed.depth held hheld) fun dst src n =>
          if src.a = 0 then dst else dst.min (samples.getD n .infinity)
      rw [hpaint] at hmerge
      cases hmerge
      refine ⟨painted, rfl, fun k hk => ?_⟩
      rw [hpixels k (hs ▸ hk), hplane k (hs ▸ hk), Image.deepen_of_depth hd hsize]

theorem add_depths (order : VisitOrder) (op : Vec4 α → Vec4 α → Vec4 α) (ht : target.Depths g)
    {i : Image} (hi : i.Addressable) :
    ∃ result, add ⟨order, true⟩ op target i = .ok result ∧ result.width = target.width ∧
      result.height = target.height ∧ result.Depths fun px py => i.deepen px py (g px py) := by
  obtain ⟨t, hblend, hdepth, hmaps⟩ := blend_maps op ht.wellFormed hi
  have hkept : t.Depths g := by
    refine ⟨hmaps.wellFormed, ?_⟩
    rw [hdepth, hmaps.width]
    exact ht.plane
  obtain ⟨result, hmerge, hwidth, hheight, hdepths⟩ := mergeDepth_depths hkept hi
  refine ⟨result, ?_, hwidth.trans hmaps.width, hheight.trans hmaps.height, hdepths⟩
  rw [add, hblend]
  exact hmerge

theorem addAll_depths (order : VisitOrder) (op : Vec4 α → Vec4 α → Vec4 α) (ht : target.Depths g)
    {images : List Image} (hi : ∀ i ∈ images, i.Addressable) :
    ∃ result, images.foldlM (add ⟨order, true⟩ op) target = .ok result ∧
      result.width = target.width ∧ result.height = target.height ∧
      result.Depths fun px py => images.foldl (Image.deepen px py) (g px py) := by
  induction images generalizing target g with
  | nil => exact ⟨target, rfl, rfl, rfl, ht⟩
  | cons i images ih =>
    rw [List.forall_mem_cons] at hi
    obtain ⟨t, hadd, hwidth, hheight, hdepths⟩ := add_depths order op ht hi.1
    obtain ⟨result, hrest, hwidth', hheight', hdepths'⟩ := ih hdepths hi.2
    refine ⟨result, ?_, hwidth'.trans hwidth, hheight'.trans hheight, hdepths'⟩
    rw [List.foldlM_cons, hadd]
    exact hrest

/-- Both orders leave the nearest samples. -/
theorem composite_depths (order : VisitOrder) (ht : target.WellFormed) (background : Vec4 α)
    {images : List Image} (hi : ∀ i ∈ images, i.Addressable) :
    ∃ result, composite ⟨order, true⟩ target background images = .ok result ∧
      result.width = target.width ∧ result.height = target.height ∧
      result.Depths fun px py => Single.nearest (Image.samples images px py) := by
  have hwindow := enableDepth_maps ht true
  rw [if_pos rfl] at hwindow
  unfold composite Single.nearest
  simp only [if_true, ← Image.foldl_deepen]
  cases order with
  | backToFront =>
    obtain ⟨t, hall, hwidth, hheight, hdepths⟩ :=
      addAll_depths .backToFront blendOver (clear_depths ht background) hi
    exact ⟨t, hall, hwidth.trans hwindow.width, hheight.trans hwindow.height, hdepths⟩
  | frontToBack =>
    obtain ⟨t, hall, hwidth, hheight, hdepths⟩ :=
      addAll_depths .frontToBack blendUnder (clear_depths ht Framebuffer.transparent) hi
    have hunder := underlay_maps hdepths.wellFormed background
    refine ⟨_, by simp only [hall]; rfl, ?_⟩
    exact ⟨hwidth.trans hwindow.width, hheight.trans hwindow.height, hunder.wellFormed, hdepths.plane⟩

/-- Compositing with depths cannot fail on images that frames have carried. It leaves a depth for every
pixel of the window: the nearest of the samples that the well-formed images with fitting depths have
there, wherever their opacity is not zero, and infinity where there is none. It is never not-a-number.
Another order, another background and other former contents of the window leave the same depths, and
so do the same images in another arrangement, up to the signs of zeros. -/
theorem composite_depth (order : VisitOrder) (ht : target.WellFormed) (background : Vec4 α)
    {images : List Image} (hi : ∀ i ∈ images, i.Addressable) :
    ∃ result plane, composite ⟨order, true⟩ target background images = .ok result ∧
      result.width = target.width ∧ result.height = target.height ∧ result.depth = some plane ∧
      plane.size = Framebuffer.area target.width target.height ∧
      (∀ d ∈ plane, d.isNaN = false) ∧
      (∀ x y, x < target.width → y < target.height →
        result.depthAt x y = .ok (some (Single.nearest (Image.samples images x.toNat y.toNat)))) ∧
      ∀ (order' : VisitOrder) (target' : Framebuffer α) (background' : Vec4 α) (images' : List Image),
        target'.WellFormed → target'.width = target.width → target'.height = target.height →
        images.Perm images' →
        ∃ result' plane', composite ⟨order', true⟩ target' background' images' = .ok result' ∧
          result'.depth = some plane' ∧ (images' = images → plane' = plane) ∧
          ∃ hs : plane'.size = plane.size, ∀ (k : Nat) (hk : k < plane.size),
            (plane[k]).sameValue plane'[k] := by
  obtain ⟨result, hresult, hwidth, hheight, hdepths⟩ := composite_depths order ht background hi
  obtain ⟨plane, hplane, hvalue⟩ := hdepths.plane
  have hsize : plane.size = Framebuffer.area target.width target.height := by
    rw [hdepths.wellFormed.depth plane hplane, hwidth, hheight]
  refine ⟨result, plane, hresult, hwidth, hheight, hplane, hsize, ?_, ?_, ?_⟩
  · intro d hd
    obtain ⟨k, hk, rfl⟩ := Array.mem_iff_getElem.1 hd
    rw [hvalue k hk]
    exact (Single.isNearest_nearest _).number
  · intro x y hx hy
    rw [← hwidth] at hx
    rw [← hheight] at hy
    obtain ⟨hlt, hcol, hrow⟩ := hdepths.wellFormed.index_spec hx hy
    rw [hdepths.wellFormed.pixels, ← hdepths.wellFormed.depth plane hplane] at hlt
    rw [Framebuffer.depthAt, hplane]
    simp only [Array.getElem?_eq_getElem hlt, hvalue _ hlt, hcol, hrow]
  · intro order' target' background' images' ht' hwidth' hheight' hperm
    obtain ⟨result', hresult', hw, hh, hdepths'⟩ :=
      composite_depths order' ht' background' fun i hmem => hi i (hperm.mem_iff.2 hmem)
    obtain ⟨plane', hplane', hvalue'⟩ := hdepths'.plane
    have hsize' : plane'.size = plane.size := by
      rw [hdepths'.wellFormed.depth plane' hplane', hw, hh, hwidth', hheight', hsize]
    rw [hw, hwidth', ← hwidth] at hvalue'
    refine ⟨result', plane', hresult', hplane', ?_, hsize', fun k hk => ?_⟩
    · rintro rfl
      exact Array.ext hsize' fun k hk' hk => (hvalue' k hk').trans (hvalue k hk).symm
    · rw [hvalue k hk, hvalue' k (hsize' ▸ hk)]
      exact Single.nearest_perm (hperm.filterMap _)

/-- Of two zeros the first one stays; a sample that is not a number and one without opacity do not
count. -/
theorem composite_depth_zeros :
    let far : Image := ⟨0, 1, ⟨0, 0, 4, 1⟩, #[0, 0, 9, 9, 0, 0, 9, 9, 0, 0, 9, 9, 9, 9, 9, 0],
      some #[⟨0x80000000⟩, 8, .nan, 1]⟩
    let near : Image := ⟨1, 1, ⟨-1, 0, 3, 1⟩, #[9, 0, 0, 9, 9, 0, 0, 9, 9, 0, 0, 9], some #[1, 0, 3]⟩
    ∃ result plane result' plane',
      composite ⟨.backToFront, true⟩ (Framebuffer.blank 4 1) (⟨0, 0, 0, 1⟩ : Vec4 Rat) [far, near] =
        .ok result ∧
      result.depth = some plane ∧ plane = #[⟨0x80000000⟩, 3, .infinity, .infinity] ∧
      composite ⟨.frontToBack, true⟩ (Framebuffer.withDepth 4 1) (⟨1, 1, 1, 1⟩ : Vec4 Rat) [near, far] =
        .ok result' ∧
      result'.depth = some plane' ∧ plane' = #[0, 3, .infinity, .infinity] ∧
      ∃ hs : plane'.size = plane.size, ∀ (k : Nat) (hk : k < plane.size),
        (plane[k]).sameValue plane'[k] := by
  intro far near
  have hi : ∀ i ∈ [far, near], i.Addressable := by
    simp only [List.forall_mem_cons, List.not_mem_nil, false_implies, implies_true, and_true]
    exact ⟨⟨by decide, by decide⟩, ⟨by decide, by decide⟩⟩
  obtain ⟨result, plane, hresult, -, -, hplane, -, -, -, hother⟩ :=
    composite_depth .backToFront (Framebuffer.blank_wellFormed 4 1) (⟨0, 0, 0, 1⟩ : Vec4 Rat) hi
  obtain ⟨result', plane', hresult', hplane', -, hsame⟩ :=
    hother .frontToBack (Framebuffer.withDepth 4 1) ⟨1, 1, 1, 1⟩ [near, far]
      (Framebuffer.blank_wellFormed 4 1).enableDepth rfl rfl (.swap near far [])
  refine ⟨result, plane, result', plane', hresult, hplane, ?_, hresult', hplane', ?_, hsame⟩
  · have hvalue : (composite ⟨.backToFront, true⟩ (Framebuffer.blank 4 1) (⟨0, 0, 0, 1⟩ : Vec4 Rat)
        [far, near]).map Framebuffer.depth =
          .ok (some #[⟨0x80000000⟩, 3, .infinity, .infinity]) := by decide +kernel
    rw [hresult, Except.map, hplane] at hvalue
    cases hvalue
    rfl
  · have hvalue : (composite ⟨.frontToBack, true⟩ (Framebuffer.withDepth 4 1) (⟨1, 1, 1, 1⟩ : Vec4 Rat)
        [near, far]).map Framebuffer.depth = .ok (some #[0, 3, .infinity, .infinity]) := by
      decide +kernel
    rw [hresult', Except.map, hplane'] at hvalue
    cases hvalue
    rfl

end Compositor
end SortLast
