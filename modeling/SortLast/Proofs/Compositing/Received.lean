import SortLast.Proofs.Compositing.Pixels
import SortLast.Proofs.Transfer.Lookup
import SortLast.Proofs.Wire.Stream
import SortLast.Proxy

/-!
# Compositing what a peer has sent

An image that was received fits its rectangle as far as machine words can tell. They can tell it of
every rectangle whose colours have fewer than `2 ^ 64` bytes; the size of a larger one is known only up
to that modulus, and then a frame cannot hold even one of its rows.

* `Receiver.image_ok`: what is known of an image that was received.
* `Receiver.imageIn_cases`: a checked build stops where it would have to count more bytes.
* `Image.Overruns`: the images that are read beyond their buffer in a window; they are oversized, and
  some of them is visible.
* `Placement.Touches`: the positions that painting an image reads and writes.
* `Compositor.composite_received`: compositing received images faults exactly if one of them overruns
  its buffer.
-/

namespace SortLast

/-! ### Messages that were read -/

namespace Source

theorem readExact_length {s t : Source} {n : Nat} {bytes : List UInt8}
    (h : s.readExact n = (.ok bytes, t)) : bytes.length = n := by
  unfold readExact at h
  rcases Nat.lt_or_ge s.chunks.flatten.length n with hlt | hle
  · rw [takeChunks_of_lt hlt] at h
    cases h
  · obtain ⟨rest, htake, -⟩ := takeChunks_of_le hle
    rw [htake] at h
    cases h
    exact List.length_take_of_le hle

/-- A message that was read fits into a frame: it was read from the payload of one. -/
theorem readMessage_framed {s t : Source} {m : Message} (h : s.readMessage = (.ok m, t)) :
    m.Framed := by
  unfold readMessage at h
  split at h
  · cases h
  · dsimp only at h
    split at h
    · cases h
    · rename_i hlength
      split at h
      · cases h
      · rename_i payload u hpayload
        have hsize := readExact_length hpayload
        cases hd : Message.codec.decode payload with
        | error e =>
          rw [Message.ofPayload?, hd] at h
          cases h
        | ok p =>
          obtain ⟨found, rest⟩ := p
          rw [Message.ofPayload?, hd] at h
          obtain rfl : found = m := by
            cases h
            rfl
          obtain ⟨hfits, hbytes⟩ := Message.codec_lawful.eq_encode _ _ _ hd
          have hencoded := Message.codec_lawful.size_eq found hfits
          rw [hbytes, List.length_append] at hsize
          rw [Message.Framed]
          omega

end Source

/-! ### Images that were received -/

namespace Image

theorem validate_ok_iff {i : Image} : i.validate = .ok () ↔
    i.colour.size = colourBytes i.rect ∧ ∀ d ∈ i.depth, d.size = i.rect.area := by
  unfold validate checkBuffers
  by_cases hcolour : i.colour.size = colourBytes i.rect
  · cases hdepth : i.depth with
    | none => simp [hcolour]
    | some d => by_cases hd : d.size = i.rect.area <;> simp [hcolour, hd]
  · simp [hcolour]

/-- What is known of an image that was received: a frame has carried its buffers, and they have the
sizes that were computed for its rectangle. -/
structure Received (i : Image) : Prop where
  carried : i.colour.size ≤ maxPayload
  colour : i.colour.size = colourBytes i.rect
  depth : ∀ d ∈ i.depth, d.size = i.rect.area
  carriedDepth : ∀ d ∈ i.depth, 4 * d.size ≤ maxPayload

/-- The number of bytes of the colours does not fit a machine word. -/
def Oversized (i : Image) : Prop := 2 ^ 64 ≤ 4 * i.rect.area

instance (i : Image) : Decidable i.Oversized := inferInstanceAs (Decidable (_ ≤ _))

/-- An oversized image that is visible in a window. -/
def Overruns (i : Image) (width height : UInt32) : Prop :=
  i.Oversized ∧ ¬ (i.rect.clip width height).isEmpty

variable {i : Image}

theorem colourBytes_eq (rect : Rect) : colourBytes rect = 4 * rect.area % 2 ^ 64 := by
  rw [colourBytes, Nat.mul_comm]
  rfl

/-- A rectangle that is not larger than a window with signed sides has its bytes counted without
overflow. -/
theorem colourBytes_of_area_le {rect : Rect} {w h : Nat} (hw : w < 2 ^ 31) (hh : h < 2 ^ 31)
    (harea : rect.area ≤ w * h) : colourBytes rect = 4 * rect.area := by
  have hwindow : w * h ≤ (2 ^ 31 - 1) * (2 ^ 31 - 1) := Nat.mul_le_mul (by omega) (by omega)
  rw [colourBytes_eq, Nat.mod_eq_of_lt (by omega)]

theorem Received.addressable (h : i.Received) (hs : ¬ i.Oversized) : i.Addressable :=
  ⟨h.carried, Nat.lt_of_not_le hs⟩

/-- Only an oversized image has a buffer of another size than its rectangle asks for. -/
theorem Received.filled_iff (h : i.Received) : i.Filled ↔ 4 * i.rect.area < 2 ^ 64 := by
  have hcarried := h.carried
  rw [maxPayload] at hcarried
  rw [Filled, h.colour, colourBytes_eq]
  constructor
  · intro heq
    rw [← heq]
    exact Nat.mod_lt _ (by decide)
  · exact Nat.mod_eq_of_lt

/-- Depths are counted without overflow, so no frame carries those of an oversized image. -/
theorem Received.depth_eq_none (h : i.Received) (hs : i.Oversized) : i.depth = none := by
  cases hd : i.depth with
  | none => rfl
  | some d =>
    have hsize := h.depth d hd
    have hcarried := h.carriedDepth d hd
    rw [hsize, maxPayload] at hcarried
    unfold Oversized at hs
    omega

/-- One row of an oversized image is longer than any frame. -/
theorem Oversized.width_le (hs : i.Oversized) : 2 ^ 30 ≤ i.rect.width.toNat := by
  by_contra hlt
  have harea : i.rect.area < 2 ^ 30 * 2 ^ 32 :=
    Nat.mul_lt_mul'' (Nat.lt_of_not_le hlt) i.rect.height.toNat_lt
  unfold Oversized at hs
  omega

end Image

/-- An image that a receiver returns was in the message that was read, and its buffers were checked. -/
theorem Receiver.read_of_image {r t : Receiver} {i : Image} (h : r.image = (.ok i, t)) :
    ∃ sent u, r.source.readMessage = (.ok (.image sent), u) ∧ sent.validate = .ok () ∧
      i = { sent with participant := r.participant } := by
  rw [Receiver.image, Reading.image_run] at h
  rcases hm : r.source.readMessage with ⟨e | m, u⟩
  · rw [hm] at h
    cases h
  · rw [hm] at h
    cases m with
    | image sent =>
      simp only at h
      cases hv : sent.validate with
      | error e =>
        rw [hv] at h
        cases h
      | ok v =>
        rw [hv] at h
        cases h
        exact ⟨sent, u, rfl, hv, rfl⟩
    | _ => cases h

/-- An image that a receiver returns was received, and belongs to the receiver's participant. -/
theorem Receiver.image_ok {r t : Receiver} {i : Image} (h : r.image = (.ok i, t)) :
    i.participant = r.participant ∧ i.Received := by
  obtain ⟨sent, u, hm, hv, rfl⟩ := read_of_image h
  have hframed : Message.codec.size (.image sent) ≤ maxPayload := Source.readMessage_framed hm
  obtain ⟨hcolour, hdepth⟩ := Image.validate_ok_iff.1 hv
  have hsize : Message.codec.size (.image sent) = 4 + (8 + (8 + (Codec.rect.size sent.rect +
    (8 + 1 * sent.colour.size + (Codec.option (Codec.array Codec.single 4)).size sent.depth)))) := rfl
  rw [hsize] at hframed
  refine ⟨rfl, by show sent.colour.size ≤ _; omega, hcolour, hdepth, fun d hd => ?_⟩
  have hd' : sent.depth = some d := hd
  have hsamples : (Codec.option (Codec.array Codec.single 4)).size (some d) = 1 + (8 + 4 * d.size) := rfl
  rw [hd', hsamples] at hframed
  omega

/-! ### Builds -/

theorem Build.times_cases (b : Build) (m n : Nat) :
    (b = .checked ∧ wordModulus ≤ m * n ∧ b.times m n = .error .overflow) ∨
      ((b = .checked → m * n < wordModulus) ∧ b.times m n = .ok (m * n % wordModulus)) := by
  cases b with
  | wrapping => exact .inr ⟨nofun, rfl⟩
  | checked =>
    rcases Nat.lt_or_ge (m * n) wordModulus with hlt | hle
    · refine .inr ⟨fun _ => hlt, ?_⟩
      rw [Nat.mod_eq_of_lt hlt]
      exact if_neg (Nat.not_le.2 hlt)
    · exact .inl ⟨rfl, hle, if_pos hle⟩

theorem Image.oversized_iff {i : Image} : i.Oversized ↔ wordModulus ≤ i.rect.area * 4 := by
  rw [Oversized, Nat.mul_comm]
  rfl

/-- A checked build stops at the check of an oversized image. All other checks have one outcome. -/
theorem Image.validateIn_cases (b : Build) (i : Image) :
    (b = .checked ∧ i.Oversized ∧ i.validateIn b = .error .overflow) ∨
      ((b = .checked → ¬ i.Oversized) ∧ i.validateIn b = .ok i.validate) := by
  unfold validateIn
  rw [oversized_iff]
  rcases b.times_cases i.rect.area 4 with ⟨hb, hle, htimes⟩ | ⟨hlt, htimes⟩
  · exact .inl ⟨hb, hle, by rw [htimes]; rfl⟩
  · exact .inr ⟨fun hb => Nat.not_le.2 (hlt hb), by rw [htimes]; rfl⟩

/-- The next message of a stream is an oversized image. -/
def Source.Bursts (s : Source) : Prop :=
  ∃ i t, s.readMessage = (.ok (.image i), t) ∧ 2 ^ 64 ≤ 4 * i.rect.area

theorem Reading.imageIn_cases (b : Build) (s : Source) :
    (b = .checked ∧ s.Bursts ∧ Reading.imageIn b s = .error .overflow) ∨
      ((b = .checked → ¬ s.Bursts) ∧ Reading.imageIn b s = .ok (Reading.image s)) := by
  unfold Reading.imageIn
  rcases hm : s.readMessage with ⟨e | m, t⟩
  · refine .inr ⟨?_, rfl⟩
    rintro - ⟨i, u, hi, -⟩
    cases hm.symm.trans hi
  · cases m with
    | image i =>
      dsimp only
      rcases i.validateIn_cases b with ⟨hb, hs, hv⟩ | ⟨hs, hv⟩
      · exact .inl ⟨hb, ⟨i, t, hm, hs⟩, by rw [hv]; rfl⟩
      · refine .inr ⟨?_, ?_⟩
        · rintro hb ⟨j, u, hj, hbig⟩
          cases hm.symm.trans hj
          exact hs hb hbig
        · rw [hv, Reading.image_run, hm]
          dsimp only
          cases i.validate <;> rfl
    | _ =>
      refine .inr ⟨?_, rfl⟩
      rintro - ⟨i, u, hi, -⟩
      cases hm.symm.trans hi

/-- A checked build stops at an oversized image. Everything else is received alike. -/
theorem Receiver.imageIn_cases (b : Build) (r : Receiver) :
    (b = .checked ∧ r.source.Bursts ∧ r.imageIn b = .error .overflow) ∨
      ((b = .checked → ¬ r.source.Bursts) ∧ r.imageIn b = .ok r.image) := by
  unfold Receiver.imageIn
  rcases Reading.imageIn_cases b r.source with ⟨hb, hbursts, himage⟩ | ⟨hsmall, himage⟩
  · exact .inl ⟨hb, hbursts, by rw [himage]; rfl⟩
  · exact .inr ⟨hsmall, by rw [himage]; rfl⟩

theorem Receiver.imageIn_faults_iff {b : Build} {r : Receiver} :
    Faults (r.imageIn b) ↔ b = .checked ∧ r.source.Bursts := by
  rcases r.imageIn_cases b with ⟨hb, hbursts, himage⟩ | ⟨hsmall, himage⟩
  · rw [himage]
    exact iff_of_true (faults_error _) ⟨hb, hbursts⟩
  · rw [himage]
    exact iff_of_false (not_faults_ok _) fun h => hsmall h.1 h.2

/-- What a build returns is what is received, and a checked build returns nothing oversized. -/
theorem Receiver.imageIn_ok {b : Build} {r t : Receiver} {i : Image}
    (h : r.imageIn b = .ok (.ok i, t)) : r.image = (.ok i, t) ∧ (b = .checked → ¬ i.Oversized) := by
  rcases r.imageIn_cases b with ⟨-, -, himage⟩ | ⟨hsmall, himage⟩
  · cases himage.symm.trans h
  · have hok : r.image = (.ok i, t) := Except.ok.inj (himage.symm.trans h)
    obtain ⟨sent, u, hm, -, rfl⟩ := read_of_image hok
    exact ⟨hok, fun hb hs => hsmall hb ⟨sent, u, hm, hs⟩⟩

theorem Source.readMessage_ofBytes {m : Message} (hframed : m.Framed) :
    ∃ t, (Source.ofBytes m.frame).readMessage = (.ok m, t) := by
  have hbytes : (Source.ofBytes m.frame).bytes = m.frame ++ [] := by
    rw [Source.bytes_ofBytes, List.append_nil]
  obtain ⟨t, ht, -, -⟩ := Source.readMessage_frame hframed hbytes
  exact ⟨t, ht⟩

/-- A frame with an image that passes the check is received as that image. -/
theorem Receiver.image_frame {i : Image} (hframed : (Message.image i).Framed)
    (hv : i.validate = .ok ()) (participant : UInt64) :
    ∃ t, Receiver.image ⟨participant, .ofBytes (Message.image i).frame, false⟩ =
      (.ok { i with participant }, t) := by
  obtain ⟨u, hu⟩ := Source.readMessage_ofBytes hframed
  rw [Receiver.image, Reading.image_run, hu]
  simp only [hv]
  exact ⟨_, rfl⟩

/-! ### Painting -/

namespace Placement

variable {p : Placement} {i : Image} {width height : UInt32}

/-- The positions that painting an image touches: rows and columns of the window, and pixels and
depths that the image has. -/
structure Touches (p : Placement) (i : Image) (width height : UInt32) : Prop where
  columns : 0 ≤ p.visible.x.toInt ∧ p.visible.x.toInt + p.visible.width.toNat ≤ width.toNat
  rows : 0 ≤ p.visible.y.toInt ∧ p.visible.y.toInt + p.visible.height.toNat ≤ height.toNat
  reads : ∀ k < Framebuffer.area width height, ∀ n, p.source? width k = some n →
    4 * n + 3 < i.colour.size ∧ ∀ d ∈ i.depth, n < d.size

theorem Exact.touches (h : p.Exact i width height) (hd : ∀ d ∈ i.depth, d.size = i.rect.area) :
    p.Touches i width height := by
  refine ⟨?_, ?_, ?_⟩
  · rw [h.visible, Rect.clip_x, Rect.clip_width]
    unfold Rect.clampTo
    omega
  · rw [h.visible, Rect.clip_y, Rect.clip_height]
    unfold Rect.clampTo
    omega
  · intro k hk n hn
    rw [h.source?_eq hk] at hn
    split at hn
    · rename_i hcovers
      cases hn
      have hshows : i.Shows (k % width.toNat : Nat) (k / width.toNat : Nat) := ⟨h.filled, hcovers⟩
      refine ⟨hshows.index_bound, fun d hmem => ?_⟩
      rw [hd d hmem]
      exact hshows.index_lt
    · cases hn

/-- Of an oversized image there is not even one row in the buffer. -/
theorem not_inBounds (hi : i.Received) (hs : i.Oversized) (hstride : p.stride = i.rect.width.toUInt64)
    (hvisible : ¬ p.visible.isEmpty) : p.inBounds i.pixelCount = false := by
  have hwidth := hs.width_le
  have hcarried := hi.carried
  have hrow : p.stride.toNat = i.rect.width.toNat := by rw [hstride, UInt32.toNat_toUInt64]
  rw [Rect.isEmpty_iff, not_or] at hvisible
  rw [maxPayload] at hcarried
  rw [inBounds, List.all_eq_false]
  refine ⟨0, List.mem_range.2 (Nat.pos_of_ne_zero hvisible.2), ?_⟩
  rw [Bool.and_eq_true, decide_eq_true_eq, hrow, Image.pixelCount]
  omega

/-- Painting touches nothing outside the buffers of an image that does not overrun. -/
theorem touches_of_received (hi : i.Received) (ho : ¬ i.Overruns width height)
    (hp : of? i width height = some p) : p.Touches i width height := by
  by_cases hs : i.Oversized
  · have hempty : (i.rect.clip width height).isEmpty := by
      by_contra hvisible
      exact ho ⟨hs, hvisible⟩
    rw [of?, hempty] at hp
    cases hp
  · rcases of?_cases (hi.addressable hs) width height with ⟨hnone, -⟩ | ⟨q, hsome, hq⟩
    · rw [hnone] at hp
      cases hp
    · rw [hsome] at hp
      cases hp
      exact hq.touches hi.depth

end Placement

theorem Image.paint_oversized {β : Type} {i : Image} (hi : i.Received) (hs : i.Oversized)
    (width height : UInt32) (pixels : Array β) (f : β → Pixel → Nat → β) :
    i.paint width height pixels f =
      if (i.rect.clip width height).isEmpty then .ok pixels else .error .outOfBounds := by
  have hsize : (i.colour.size != colourBytes i.rect) = false := by
    rw [bne_eq_false_iff_eq]
    exact hi.colour
  unfold paint Placement.of?
  simp only [hsize, Bool.or_false]
  by_cases hempty : (i.rect.clip width height).isEmpty
  · rw [if_pos hempty, if_pos hempty]
  · rw [if_neg hempty, if_neg hempty]
    dsimp only
    rw [Placement.not_inBounds hi hs rfl hempty]
    rfl

/-! ### Compositing -/

namespace Compositor

variable {α : Type} [Channel α] (c : Compositor) (op : Vec4 α → Vec4 α → Vec4 α)
  {target : Framebuffer α}

/-- The window is well-formed and keeps its size. -/
structure Keeps (s t : Framebuffer α) : Prop where
  width : t.width = s.width
  height : t.height = s.height
  wellFormed : t.WellFormed

omit [Channel α] in
theorem Maps.keeps {s t : Framebuffer α} {f : Int → Int → Vec4 α → Vec4 α} (h : Maps s t f) :
    Keeps s t := ⟨h.width, h.height, h.wellFormed⟩

/-- One image that overruns is a fault; one that does not is added. -/
theorem add_received (ht : target.WellFormed) {i : Image} (hi : i.Received) :
    (i.Overruns target.width target.height ∧ Faults (c.add op target i)) ∨
      (¬ i.Overruns target.width target.height ∧ ∃ t, c.add op target i = .ok t ∧ Keeps target t) := by
  by_cases hs : i.Oversized
  · have hpaint := Image.paint_oversized hi hs target.width target.height target.pixels
      fun dst src _ => op dst src.toColour
    by_cases hempty : (i.rect.clip target.width target.height).isEmpty
    · rw [if_pos hempty] at hpaint
      refine .inr ⟨fun ho => ho.2 hempty, target, ?_, rfl, rfl, ht⟩
      have hmerge : mergeDepth target i = .ok target := by
        rw [mergeDepth, hi.depth_eq_none hs]
      rw [add, blend, hpaint]
      show (if c.depth then mergeDepth target i else pure target) = _
      rw [hmerge]
      split <;> rfl
    · rw [if_neg hempty] at hpaint
      refine .inl ⟨⟨hs, hempty⟩, .outOfBounds, ?_⟩
      rw [add, blend, hpaint]
      rfl
  · obtain ⟨t, hadd, hmaps⟩ := c.add_maps op ht (hi.addressable hs)
    exact .inr ⟨fun ho => hs ho.1, t, hadd, hmaps.keeps⟩

/-- Images are added up to the first one that overruns. -/
theorem addAll_received (ht : target.WellFormed) {images : List Image}
    (hi : ∀ i ∈ images, i.Received) :
    Faults (images.foldlM (c.add op) target) ↔
      ∃ i ∈ images, i.Overruns target.width target.height := by
  induction images generalizing target with
  | nil =>
    refine iff_of_false (not_faults_pure _) ?_
    rintro ⟨i, hmem, -⟩
    exact List.not_mem_nil hmem
  | cons i images ih =>
    rw [List.forall_mem_cons] at hi
    rw [List.foldlM_cons, faults_bind, List.exists_mem_cons_iff]
    rcases c.add_received op ht hi.1 with ⟨ho, hfault⟩ | ⟨ho, t, hadd, hkeeps⟩
    · exact iff_of_true (.inl hfault) (.inl ho)
    · have hrest := ih hkeeps.wellFormed hi.2
      rw [hkeeps.width, hkeeps.height] at hrest
      simp only [hadd, not_faults_ok, false_or, Except.ok.injEq, exists_eq_left', ho, hrest]

theorem composite_faults_iff (ht : target.WellFormed) (background : Vec4 α) {images : List Image}
    (hi : ∀ i ∈ images, i.Received) :
    Faults (c.composite target background images) ↔
      ∃ i ∈ images, i.Overruns target.width target.height := by
  have hdepth := enableDepth_maps ht c.depth
  have hwindow : ∀ colour : Vec4 α,
      Keeps target ((if c.depth then target.enableDepth else target).clear colour) := fun colour =>
    (hdepth.trans (clear_maps hdepth.wellFormed colour)).keeps
  unfold composite
  cases c.order with
  | backToFront =>
    have hkeeps := hwindow background
    rw [← hkeeps.width, ← hkeeps.height]
    exact c.addAll_received blendOver hkeeps.wellFormed hi
  | frontToBack =>
    have hkeeps := hwindow Framebuffer.transparent
    rw [← hkeeps.width, ← hkeeps.height, ← c.addAll_received blendUnder hkeeps.wellFormed hi]
    dsimp only
    rw [faults_bind]
    simp only [not_faults_pure, and_false, exists_false, or_false]

theorem countVisible_faults_iff {b : Build} {width height : UInt32} {i : Image} :
    Faults (countVisible b width height i) ↔ b = .checked ∧ i.Overruns width height := by
  unfold countVisible
  by_cases hempty : (i.rect.clip width height).isEmpty
  · rw [if_pos hempty]
    exact iff_of_false (not_faults_ok _) fun h => h.2.2 hempty
  · rw [if_neg hempty, Image.Overruns, Image.oversized_iff]
    rcases b.times_cases i.rect.area 4 with ⟨hb, hle, htimes⟩ | ⟨hlt, htimes⟩
    · rw [htimes]
      exact iff_of_true (faults_error _) ⟨hb, hle, hempty⟩
    · rw [htimes]
      exact iff_of_false (not_faults_ok _) fun h => absurd h.2.1 (Nat.not_le.2 (hlt h.1))

/-- A checked build stops at a visible image that is oversized, and the other one reads beyond it. -/
theorem compositeIn_faults_iff (b : Build) (ht : target.WellFormed) (background : Vec4 α)
    {images : List Image} (hi : ∀ i ∈ images, i.Received) :
    Faults (c.compositeIn b target background images) ↔
      ∃ i ∈ images, i.Overruns target.width target.height := by
  rw [compositeIn, faults_bind, faults_forM, c.composite_faults_iff ht background hi]
  simp only [countVisible_faults_iff]
  constructor
  · rintro (⟨i, hmem, -, ho⟩ | ⟨-, -, ho⟩)
    · exact ⟨i, hmem, ho⟩
    · exact ho
  · intro ho
    rcases hcount : images.forM (countVisible b target.width target.height) with f | u
    · have hfaults : Faults (images.forM (countVisible b target.width target.height)) := ⟨f, hcount⟩
      rw [faults_forM] at hfaults
      simp only [countVisible_faults_iff] at hfaults
      exact .inl hfaults
    · exact .inr ⟨u, rfl, ho⟩

/-- Receiving stops only in a checked build, and there exactly at an image whose colours have `2 ^ 64`
bytes or more. An image that is returned carries the receiver's participant; its depths are as many as
its rectangle has pixels, and its colours four bytes for each of them, up to a multiple of `2 ^ 64`:
they are exactly so many if and only if the product is below that, as it is in a checked build.
Compositing any such images, in either order, with or without depths, has no result if and only if one
of them has a larger rectangle that is visible in the window, and in a checked build none of them has.
For all others every position that is read or written lies in its buffer. -/
theorem composite_received (b : Build) (c : Compositor) {target : Framebuffer α}
    (ht : target.WellFormed) (background : Vec4 α) {images : List Image}
    (hi : ∀ i ∈ images, ∃ r t : Receiver, r.imageIn b = .ok (.ok i, t)) :
    (∀ r : Receiver, Faults (r.imageIn b) ↔ b = .checked ∧
      ∃ i t, r.source.readMessage = (.ok (.image i), t) ∧ 2 ^ 64 ≤ 4 * i.rect.area) ∧
    (∀ (r t : Receiver) (i : Image), r.imageIn b = .ok (.ok i, t) →
      i.participant = r.participant ∧ (∀ d ∈ i.depth, d.size = i.rect.area) ∧
      i.colour.size = 4 * i.rect.area % 2 ^ 64 ∧
      (i.colour.size = 4 * i.rect.area ↔ 4 * i.rect.area < 2 ^ 64) ∧
      (b = .checked → i.colour.size = 4 * i.rect.area)) ∧
    (Faults (c.compositeIn b target background images) ↔
      ∃ i ∈ images, 2 ^ 64 ≤ 4 * i.rect.area ∧ ¬ (i.rect.clip target.width target.height).isEmpty) ∧
    (b = .checked → ¬ Faults (c.compositeIn b target background images)) ∧
    ∀ i ∈ images, ¬ i.Overruns target.width target.height →
      ∀ p, Placement.of? i target.width target.height = some p →
        p.Touches i target.width target.height := by
  have hreceived : ∀ i ∈ images, i.Received := by
    intro i hmem
    obtain ⟨r, t, himage⟩ := hi i hmem
    exact (Receiver.image_ok (Receiver.imageIn_ok himage).1).2
  have hfaults := c.compositeIn_faults_iff b ht background hreceived
  refine ⟨fun r => Receiver.imageIn_faults_iff, ?_, hfaults, ?_, ?_⟩
  · intro r t i himage
    obtain ⟨hok, hsmall⟩ := Receiver.imageIn_ok himage
    obtain ⟨hparticipant, hr⟩ := Receiver.image_ok hok
    refine ⟨hparticipant, hr.depth, ?_, hr.filled_iff, fun hb => ?_⟩
    · rw [hr.colour, Image.colourBytes_eq]
    · exact hr.filled_iff.2 (Nat.lt_of_not_le (hsmall hb))
  · rintro hb hfault
    obtain ⟨i, hmem, ho⟩ := hfaults.1 hfault
    obtain ⟨r, t, himage⟩ := hi i hmem
    exact (Receiver.imageIn_ok himage).2 hb ho.1
  · intro i hmem ho p hp
    exact Placement.touches_of_received (hreceived i hmem) ho hp

/-- An ordinary image from a peer that claims to be another participant: in either build it is
attributed to its own participant and composited without a fault. -/
theorem composite_received_relabelled :
    let Relabelled (b : Build) := ∃ (i : Image) (t : Receiver),
      Receiver.imageIn b ⟨3, .ofBytes (Message.image ⟨7, 1, ⟨-1, 0, 2, 1⟩,
        #[1, 2, 3, 4, 5, 6, 7, 8], some #[1, 2]⟩).frame, false⟩ = .ok (.ok i, t) ∧
      i.participant = 3 ∧
      ¬ Faults (compositeIn b ⟨.frontToBack, true⟩ (Framebuffer.blank 4 4 : Framebuffer Single)
        ⟨0, 0, 0, 1⟩ [i])
    Relabelled .wrapping ∧ Relabelled .checked := by
  intro Relabelled
  have hboth : ∀ b, Relabelled b := by
    intro b
    let sent : Image := ⟨7, 1, ⟨-1, 0, 2, 1⟩, #[1, 2, 3, 4, 5, 6, 7, 8], some #[1, 2]⟩
    obtain ⟨t, himage⟩ := Receiver.image_frame (i := sent) (by decide) (by decide) 3
    have hin : Receiver.imageIn b ⟨3, .ofBytes (Message.image sent).frame, false⟩ =
        .ok (.ok { sent with participant := 3 }, t) := by
      rcases Receiver.imageIn_cases b ⟨3, .ofBytes (Message.image sent).frame, false⟩ with
        ⟨-, ⟨i, u, hread, hbig⟩, -⟩ | ⟨-, hsame⟩
      · obtain ⟨v, hv⟩ := Source.readMessage_ofBytes (m := .image sent) (by decide)
        cases hv.symm.trans hread
        exact absurd hbig (by decide)
      · rw [hsame, himage]
    obtain ⟨-, hspec, hfaults, -, -⟩ := composite_received b ⟨.frontToBack, true⟩
      (Framebuffer.blank_wellFormed (α := Single) 4 4) ⟨0, 0, 0, 1⟩
      (List.forall_mem_singleton.2 ⟨_, t, hin⟩)
    refine ⟨_, t, hin, (hspec _ _ _ hin).1, ?_⟩
    rw [hfaults]
    rintro ⟨i, hmem, hs, -⟩
    rw [List.mem_singleton.1 hmem] at hs
    exact absurd hs (by decide)
  exact ⟨hboth .wrapping, hboth .checked⟩

/-- An image of `2 ^ 31` by `2 ^ 31` pixels without a single byte of colours: where products wrap around
it is received, and compositing it into any visible window reads beyond its buffer; a checked build
stops when it receives it. -/
theorem composite_received_overrun :
    let hostile : Receiver := ⟨3, .ofBytes (Message.image
      { rect := ⟨0, 0, 2147483648, 2147483648⟩ }).frame, false⟩
    (∃ (i : Image) (t : Receiver), hostile.imageIn .wrapping = .ok (.ok i, t) ∧
      i.colour.size = 0 ∧ 4 * i.rect.area = 2 ^ 64 ∧
      compositeIn .wrapping {} (Framebuffer.blank 1 1 : Framebuffer Single) ⟨0, 0, 0, 1⟩ [i] =
        .error .outOfBounds) ∧
      hostile.imageIn .checked = .error .overflow := by
  intro hostile
  let sent : Image := { rect := ⟨0, 0, 2147483648, 2147483648⟩ }
  obtain ⟨t, himage⟩ := Receiver.image_frame (i := sent) (by decide) (by decide) 3
  obtain ⟨u, hread⟩ := Source.readMessage_ofBytes (m := .image sent) (by decide)
  refine ⟨⟨{ sent with participant := 3 }, t, ?_, by decide, by decide, by decide +kernel⟩, ?_⟩
  · rcases hostile.imageIn_cases .wrapping with ⟨hb, -, -⟩ | ⟨-, hsame⟩
    · cases hb
    · rw [hsame]
      exact congrArg _ himage
  · rcases hostile.imageIn_cases .checked with ⟨-, -, hstops⟩ | ⟨hsmall, -⟩
    · exact hstops
    · exact absurd ⟨sent, u, hread, by decide⟩ (hsmall rfl)

end Compositor
end SortLast
