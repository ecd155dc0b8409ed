import SortLast.Proofs.Compositing.Received
import SortLast.Proofs.Participant.Faults

/-!
# Images that can be placed

Whatever the camera, the bricks and the window, an image of a flat renderer can be placed in the
window: its buffers fit its rectangle, and the rectangle lies in the window.

* `FlatRenderer.side_toNat`: a side of the window as a number, whatever its sign.
* `Image.Uniform`: buffers of one colour; `Image.filled_ok` says that a filled image has one.
* `FlatRenderer.image_cases`: an image of a flat renderer is the empty one or of one colour.
* `FlatRenderer.image_placeable`: every image can be placed, and with a transfer function that was
  checked when it was made there is one.
-/

namespace SortLast

/-! ### Images of one colour -/

namespace Image

theorem pushPixels_toList (p : Pixel) (bytes : Array UInt8) (n : Nat) :
    (pushPixels p bytes n).toList = bytes.toList ++ (List.replicate n p.bytes).flatten := by
  induction n generalizing bytes with
  | zero => simp [pushPixels]
  | succ n ih => simp [pushPixels, ih, List.replicate_succ, Pixel.bytes]

/-- The colours of `n` pixels that all look like `p`. -/
def Uniform (colour : Array UInt8) (n : Nat) (p : Pixel) : Prop :=
  colour.toList = (List.replicate n p.bytes).flatten

theorem Uniform.size_eq {colour : Array UInt8} {n : Nat} {p : Pixel} (h : Uniform colour n p) :
    colour.size = 4 * n := by
  rw [← Array.length_toList, h, List.length_flatten, List.map_replicate, List.sum_replicate_nat,
    Nat.mul_comm]
  rfl

theorem filled_ok {participant : UInt64} {rect : Rect} {p : Pixel} {i : Image}
    (h : filled participant rect p = .ok i) :
    i.participant = participant ∧ i.rect = rect ∧ Uniform i.colour rect.area p ∧ i.depth = none := by
  unfold filled checkCapacity at h
  split at h
  · cases h
  · cases h
    refine ⟨rfl, rfl, ?_, rfl⟩
    simp [Uniform, pushPixels_toList]

end Image

namespace FlatRenderer

theorem side_toNat (v : Int32) : ((side v).toNat : Int) = max v.toInt 0 := by
  have hlt := v.toInt_lt
  rw [side, UInt32.toNat_ofNat_of_lt' (by rw [UInt32.size]; omega)]
  omega

theorem side_lt (v : Int32) : (side v).toNat < 2 ^ 31 := by
  have hside := side_toNat v
  have hlt := v.toInt_lt
  omega

/-- In a window with pixels, a box covers at least one of them, or has no rectangle. -/
theorem isEmpty_of_project {v : View} {bounds : Box} {width height : Int32} {rect : Rect}
    (h : v.project bounds (side width) (side height) = some rect) (hwidth : 0 < width)
    (hheight : 0 < height) : rect.isEmpty = false := by
  rw [Bool.eq_false_iff]
  rcases View.project_cases h with rfl | ⟨hempty, -⟩
  · have hw := side_toNat width
    have hh := side_toNat height
    have hw0 : 0 < width.toInt := Int32.lt_iff_toInt_lt.1 hwidth
    have hh0 : 0 < height.toInt := Int32.lt_iff_toInt_lt.1 hheight
    rw [ne_eq, Rect.isEmpty_iff]
    show ¬ ((side width).toNat = 0 ∨ (side height).toNat = 0)
    omega
  · exact hempty

/-- An image shows nothing, or one colour over the pixels that the bricks may cover. -/
theorem image_cases {r : FlatRenderer} {state : RenderState} {bricks : List Brick} {i : Image}
    (h : r.image state bricks = .ok i) :
    i = .empty 0 ∨ ∃ bounds p,
      state.view.project bounds (side state.width) (side state.height) = some i.rect ∧
      r.premultiplied state = .ok p ∧ Image.Uniform i.colour i.rect.area p ∧
      ∀ d ∈ i.depth, d.size = i.rect.area := by
  unfold image at h
  cases bricks with
  | nil =>
    cases h
    exact .inl rfl
  | cons first rest =>
    dsimp only at h
    split at h
    · cases h
      exact .inl rfl
    · rename_i rect hproject
      obtain ⟨p, hp, h⟩ := ok_of_bind h
      obtain ⟨filled, hfilled, h⟩ := ok_of_bind h
      obtain ⟨-, hrect, hcolour, hdepth⟩ := Image.filled_ok hfilled
      refine .inr ⟨boundsOf first rest, p, ?_⟩
      split at h
      · cases h
        refine ⟨hproject.trans (congrArg some hrect.symm), hp, hrect ▸ hcolour, ?_⟩
        rintro d ⟨⟩
        rw [Array.size_replicate, hrect]
      · cases h
        refine ⟨hproject.trans (congrArg some hrect.symm), hp, hrect ▸ hcolour, ?_⟩
        rw [hdepth]
        rintro d ⟨⟩

/-- The transfer function, if there is one, was checked when it was made, and may have been quantised
since. -/
def Checked (state : RenderState) : Prop :=
  ∀ t, state.transferFunction = some t → ∃ points t' bands,
    TransferFunction.ofPoints points = .ok t' ∧ t = t'.withDiscrete bands

/-- A function that was checked has no point that is not a number, so it has an average opacity. -/
theorem Checked.harmless {state : RenderState} (h : Checked state)
    (hwindow : windowArea state.width state.height * 4 ≤ maxBufferBytes) : state.Harmless where
  window := hwindow
  points t ht p hp := by
    obtain ⟨points, t', bands, hmade, rfl⟩ := h t ht
    exact Single.not_isNaN (TransferFunction.isFinite_of_ofPoints hmade p (List.mem_of_mem_head? hp))

/-- Every image of a flat renderer fits its rectangle, and the rectangle lies in the window; in a window
with pixels it is the empty image or shows one colour over at least one pixel. There is an image for
every camera and all bricks, if the transfer function was checked when it was made and memory can hold
the window. -/
theorem image_placeable (r : FlatRenderer) (state : RenderState) (bricks : List Brick) :
    (∀ i, r.image state bricks = .ok i →
      i.validate = .ok () ∧ i.rect.LiesIn (max state.width.toInt 0) (max state.height.toInt 0) ∧
      (0 < state.width → 0 < state.height → i = .empty 0 ∨
        i.rect.isEmpty = false ∧ ∃ p, r.premultiplied state = .ok p ∧
          i.colour.toList = (List.replicate i.rect.area p.bytes).flatten)) ∧
    (Checked state → windowArea state.width state.height * 4 ≤ maxBufferBytes →
      ∃ i, r.image state bricks = .ok i) := by
  refine ⟨fun i h => ?_, fun hchecked hwindow => ?_⟩
  · rcases image_cases h with rfl | ⟨bounds, p, hproject, hp, hcolour, hdepth⟩
    · exact ⟨rfl, ⟨Int.le_refl 0, Int.le_max_right _ _, Int.le_refl 0, Int.le_max_right _ _⟩,
        fun _ _ => .inl rfl⟩
    · have hlies := View.project_liesIn hproject
      have hsize : i.colour.size = Image.colourBytes i.rect := by
        rw [hcolour.size_eq, Image.colourBytes_of_area_le (side_lt _) (side_lt _) hlies.area_le]
      rw [side_toNat, side_toNat] at hlies
      refine ⟨Image.validate_ok_iff.2 ⟨hsize, hdepth⟩, hlies, fun hwidth hheight => ?_⟩
      exact .inr ⟨isEmpty_of_project hproject hwidth hheight, p, hp, hcolour⟩
  · rcases himage : r.image state bricks with f | i
    · exact absurd ((r.faults_image state bricks).1 ⟨f, himage⟩)
        (hchecked.harmless hwindow).not_doomed
    · exact ⟨i, rfl⟩

/-- A cube in the middle of a window of four by three pixels, under a ramp of opacities whose points
were given in the wrong order. -/
theorem image_placeable_cube :
    let r : FlatRenderer := ⟨⟨1, 0, 0, 1⟩, true⟩
    let state : RenderState := { width := 4, height := 3, transferFunction := some .grayscaleRamp }
    let bricks : List Brick := [⟨⟨⟨-0.5, -0.5, -0.5⟩, ⟨0.5, 0.5, 0.5⟩⟩, 0, 0⟩]
    TransferFunction.ofPoints [⟨1, .one⟩, ⟨0, .zero⟩] = .ok .grayscaleRamp ∧
      ∃ i, r.image state bricks = .ok i ∧ i.validate = .ok () ∧ i.rect.LiesIn 4 3 ∧
        i.rect = ⟨1, 0, 2, 3⟩ ∧
        ∃ p : Pixel, i.colour.toList = (List.replicate 6 p.bytes).flatten := by
  intro r state bricks
  have hmade : TransferFunction.ofPoints [⟨1, .one⟩, ⟨0, .zero⟩] = .ok .grayscaleRamp := by
    cbv
  have hchecked : Checked state := by
    rintro _ ⟨⟩
    exact ⟨_, _, 0, hmade, rfl⟩
  obtain ⟨hall, hsome⟩ := image_placeable r state bricks
  obtain ⟨i, hi⟩ := hsome hchecked (by decide)
  obtain ⟨hvalid, hlies, hcolour⟩ := hall i hi
  have hrect : i.rect = ⟨1, 0, 2, 3⟩ := by
    have h : (r.image state bricks).map Image.rect = .ok ⟨1, 0, 2, 3⟩ := by decide +kernel
    rw [hi] at h
    exact Except.ok.inj h
  refine ⟨hmade, i, hi, hvalid, hlies, hrect, ?_⟩
  rcases hcolour (by decide) (by decide) with rfl | ⟨-, p, -, hp⟩
  · exact absurd hrect (by decide)
  · rw [hrect] at hp
    exact ⟨p, hp⟩

end FlatRenderer
end SortLast
