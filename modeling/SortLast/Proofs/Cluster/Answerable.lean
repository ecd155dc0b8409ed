import SortLast.Proofs.Cluster.Window
import SortLast.Proofs.Compositing.Received
import SortLast.Proofs.Wire.Sink

/-!
# Windows that can be answered

A window is accepted if its sides can be sent, and an image is sent if a frame can hold it. The two
limits are not the same: a frame has room for the image of a whole window only up to a number of
pixels.

* `Message.image_size`: the bytes of an image without depths.
* `Sink.put_tooLarge_iff`: what is refused as too large.
* `Rect.Within`: rectangles all of whose pixels are pixels of another one.
* `Image.Answers`: the images that a participant may answer with in a window.
* `ClusterConfig.window_answerable`: the windows in which each of them can be sent.
-/

namespace SortLast

/-! ### What a frame can hold -/

/-- Around the colours of an image without depths there are 45 bytes. -/
theorem Message.image_size {i : Image} (h : i.depth = none) :
    codec.size (.image i) = 45 + i.colour.size := by
  have hsize : codec.size (.image i) = 4 + (8 + (8 + (16 +
    (8 + 1 * i.colour.size + (Codec.option (Codec.array Codec.single 4)).size i.depth)))) := rfl
  have hnone : (Codec.option (Codec.array Codec.single 4)).size none = 1 := rfl
  rw [hsize, h, hnone]
  omega

namespace Sink

variable {s : Sink} {m : Message}

theorem writeAll_ne_tooLarge (s : Sink) (bytes : List UInt8) (n : Nat) :
    (s.writeAll bytes).1 ≠ .error (.tooLarge n) := by
  unfold writeAll
  dsimp only
  split <;> rintro ⟨⟩

theorem flush_ne_tooLarge (s : Sink) (n : Nat) : s.flush.1 ≠ .error (.tooLarge n) := by
  unfold flush
  dsimp only
  split <;> rintro ⟨⟩

/-- Whatever else a sink does, it refuses as too large exactly what no frame can hold. -/
theorem put_tooLarge_iff : (∃ n, (s.put m).1 = .error (.tooLarge n)) ↔ ¬ m.Framed := by
  by_cases hm : m.Framed
  · refine iff_of_false ?_ (not_not.2 hm)
    rintro ⟨n, h⟩
    have hwrite := s.writeAll_ne_tooLarge m.frame n
    rw [put, if_neg (Nat.not_lt.2 hm)] at h
    rcases hw : s.writeAll m.frame with ⟨e | ⟨⟩, t⟩
    · rw [hw] at h hwrite
      exact hwrite h
    · rw [hw] at h
      exact t.flush_ne_tooLarge n h
  · exact iff_of_true ⟨_, congrArg Prod.fst (put_of_not_framed hm)⟩ hm

end Sink

/-! ### Windows -/

namespace Rect

/-- All pixels of a rectangle are pixels of another one. -/
def Within (r s : Rect) : Prop := ∀ px py, r.Covers px py → s.Covers px py

/-- A rectangle of pixels of a window is not larger than the window. -/
theorem Within.area_le {r : Rect} {width height : UInt32} (h : r.Within (full width height)) :
    r.area ≤ width.toNat * height.toNat := by
  rcases Nat.eq_zero_or_pos r.area with harea | harea
  · rw [harea]
    exact Nat.zero_le _
  · have hw : 0 < r.width.toNat := Nat.pos_of_mul_pos_right harea
    have hh : 0 < r.height.toNat := Nat.pos_of_mul_pos_left harea
    -- the pixels in the first and in the last corner
    obtain ⟨hx0, -, hy0, -⟩ := h r.x.toInt r.y.toInt (by unfold Covers; omega)
    obtain ⟨-, hx1, -, hy1⟩ := h (r.x.toInt + r.width.toNat - 1) (r.y.toInt + r.height.toNat - 1)
      (by unfold Covers; omega)
    have hzero : (full width height).x.toInt = 0 ∧ (full width height).y.toInt = 0 := ⟨rfl, rfl⟩
    have hsides : (full width height).width = width ∧ (full width height).height = height := ⟨rfl, rfl⟩
    rw [hzero.1] at hx0 hx1
    rw [hzero.2] at hy0 hy1
    rw [hsides.1] at hx1
    rw [hsides.2] at hy1
    exact Nat.mul_le_mul (by omega) (by omega)

end Rect

theorem ClusterConfig.windowDims_lt {width height : UInt32} {dims : Int32 × Int32}
    (hd : windowDims width height = .ok dims) : width.toNat < 2 ^ 31 ∧ height.toNat < 2 ^ 31 := by
  obtain ⟨hw, hh⟩ := windowDims_ok hd
  have hwlt := dims.1.toInt_lt
  have hhlt := dims.2.toInt_lt
  omega

namespace Image

/-- A participant without depths may answer with the image: its buffer fits its rectangle, and all of
its pixels are pixels of the window. -/
structure Answers (i : Image) (width height : UInt32) : Prop where
  valid : i.validate = .ok ()
  depth : i.depth = none
  within : i.rect.Within (.full width height)

/-- The most pixels that a frame has room for. -/
def largestArea : Nat := (maxPayload - 45) / 4

/-- The image of a whole window. -/
def ofWindow (width height : UInt32) : Image :=
  { rect := .full width height, colour := Array.replicate (4 * (width.toNat * height.toNat)) 0 }

variable {i : Image} {width height : UInt32} {dims : Int32 × Int32}

/-- In a window that is accepted, the size of a buffer does not wrap around. -/
theorem Answers.filled (h : i.Answers width height)
    (hd : ClusterConfig.windowDims width height = .ok dims) : i.Filled := by
  obtain ⟨hw, hh⟩ := ClusterConfig.windowDims_lt hd
  rw [Filled, (validate_ok_iff.1 h.valid).1, colourBytes_of_area_le hw hh h.within.area_le]

/-- A frame can hold an answer exactly up to the largest area. -/
theorem Answers.framed_iff (h : i.Answers width height)
    (hd : ClusterConfig.windowDims width height = .ok dims) :
    (Message.image i).Framed ↔ i.rect.area ≤ largestArea := by
  rw [Message.Framed, Message.image_size h.depth, h.filled hd, largestArea, maxPayload]
  omega

/-- The image of the whole window is an answer itself. -/
theorem ofWindow_answers (hd : ClusterConfig.windowDims width height = .ok dims) :
    (ofWindow width height).Answers width height where
  valid := by
    obtain ⟨hw, hh⟩ := ClusterConfig.windowDims_lt hd
    have hbytes : colourBytes (.full width height) = 4 * (width.toNat * height.toNat) :=
      colourBytes_of_area_le hw hh (Nat.le_refl _)
    refine validate_ok_iff.2 ⟨?_, by rintro d ⟨⟩⟩
    show (Array.replicate (4 * (width.toNat * height.toNat)) 0).size = colourBytes (.full width height)
    rw [Array.size_replicate, hbytes]
  depth := rfl
  within _ _ h := h

end Image

namespace ClusterConfig

/-- In a window that is accepted, an answer is refused as too large, by any sink, exactly if it has more
pixels than the largest area; every other one is sent, if the sink does not fail. So all answers can be
sent exactly if the window itself is not larger. -/
theorem window_answerable {width height : UInt32} {dims : Int32 × Int32}
    (hd : windowDims width height = .ok dims) :
    ((∀ i : Image, i.Answers width height →
        ∀ (s : Sink) (n : Nat), (s.put (.image i)).1 ≠ .error (.tooLarge n)) ↔
      width.toNat * height.toNat ≤ Image.largestArea) ∧
    ∀ i : Image, i.Answers width height → ∀ s : Sink,
      ((∃ n, (s.put (.image i)).1 = .error (.tooLarge n)) ↔ Image.largestArea < i.rect.area) ∧
      (i.rect.area ≤ Image.largestArea → s.Reliable → ∃ t, s.put (.image i) = (.ok (), t)) := by
  have hrefused : ∀ i : Image, i.Answers width height → ∀ s : Sink,
      (∃ n, (s.put (.image i)).1 = .error (.tooLarge n)) ↔ Image.largestArea < i.rect.area := by
    intro i hi s
    rw [Sink.put_tooLarge_iff, hi.framed_iff hd, Nat.not_le]
  refine ⟨⟨fun h => ?_, fun harea i hi s n hn => ?_⟩, fun i hi s => ⟨hrefused i hi s, ?_⟩⟩
  · by_contra hlarge
    have hwindow := Image.ofWindow_answers hd
    obtain ⟨n, hn⟩ := (hrefused _ hwindow .unlimited).2 (Nat.lt_of_not_le hlarge)
    exact h _ hwindow .unlimited n hn
  · have hlarge := (hrefused i hi s).1 ⟨n, hn⟩
    have hwithin := hi.within.area_le
    omega
  · intro harea hs
    obtain ⟨t, ht, -⟩ := hs.put ((hi.framed_iff hd).2 harea)
    exact ⟨t, ht⟩

/-- A window of 4096 by 4095 pixels is accepted, and every answer can be sent. -/
theorem window_answerable_4095 :
    windowDims 4096 4095 = .ok (4096, 4095) ∧
      ∀ i : Image, i.Answers 4096 4095 →
        ∀ (s : Sink) (n : Nat), (s.put (.image i)).1 ≠ .error (.tooLarge n) := by
  have hd : windowDims 4096 4095 = .ok (4096, 4095) := by decide
  exact ⟨hd, (window_answerable hd).1.2 (by decide)⟩

/-- One row more is accepted too, but the image of the whole window is too large. -/
theorem window_unanswerable_4096 :
    windowDims 4096 4096 = .ok (4096, 4096) ∧
      ∃ i : Image, i.Answers 4096 4096 ∧ i.rect = .full 4096 4096 ∧
        (Sink.unlimited.put (.image i)).1 = .error (.tooLarge 67108909) := by
  have hd : windowDims 4096 4096 = .ok (4096, 4096) := by decide
  have hanswers := Image.ofWindow_answers hd
  have hsize : Message.codec.size (.image (Image.ofWindow 4096 4096)) = 67108909 := by
    rw [Message.image_size rfl, hanswers.filled hd]
    rfl
  refine ⟨hd, _, hanswers, rfl, ?_⟩
  rw [Sink.put_of_not_framed (by rw [Message.Framed, hsize]; decide), hsize]

end ClusterConfig
end SortLast
