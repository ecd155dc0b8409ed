import SortLast.Proofs.Wire.Codec
import SortLast.Wire.Message

/-!
# Messages on the wire

Every message is read back from its bytes, whatever follows them, and nothing else is read from them.

* `Message.Fits`: the messages whose lists and buffers have a length that fits the format.
* `Message.codec_lawful`: reading a message accepts exactly what writing one produces.
* `Message.fits_of_size`: what is small enough for a frame fits.
* `Message.frame_eq`: a frame as the length and the payload.
-/

namespace SortLast
namespace Message

open Codec

/-- The messages whose lists and buffers have a length that fits. -/
def Fits : Message → Prop
  | transferFunction t => t.points.length < 2 ^ 64
  | bricks bs => bs.length < 2 ^ 64
  | image i => ImageFits i
  | _ => True

theorem reasonCodec_lawful : reasonCodec.Lawful (· ∈ Reason.all) :=
  Lawful.enumeration (by decide) (by decide)

theorem reason_mem_all (r : Reason) : r ∈ Reason.all := by cases r <;> decide

theorem pointCodec_lawful : pointCodec.Lawful Always := Lawful.vec3 Lawful.single

theorem dimsCodec_lawful : dimsCodec.Lawful fun p => Always p.1 ∧ Always p.2 :=
  Lawful.i32.pair Lawful.i32

theorem bricksCodec_lawful : bricksCodec.Lawful (ListFits Always) := Lawful.brick.list

theorem bodySize_eq {m : Message} (h : m.Fits) : m.bodySize = m.encodeBody.length := by
  cases m with
  | hello v => exact Lawful.u8.size_eq v trivial
  | reason r => exact reasonCodec_lawful.size_eq r (reason_mem_all r)
  | int32 v => exact Lawful.i32.size_eq v trivial
  | float32 v => exact Lawful.single.size_eq v trivial
  | bool v => exact Lawful.bool.size_eq v trivial
  | vector3 v => exact pointCodec_lawful.size_eq v trivial
  | matrix m => exact Lawful.matrix.size_eq m trivial
  | winDims w l => exact dimsCodec_lawful.size_eq (w, l) ⟨trivial, trivial⟩
  | transferFunction t => exact Lawful.transferFunction.size_eq t h
  | bricks bs => exact bricksCodec_lawful.size_eq bs ⟨h, fun _ _ => trivial⟩
  | image i => exact Lawful.image.size_eq i h

/-- What is written with one codec of a message is read as that message. -/
theorem decode_as {α : Type} {c : Codec α} {fits : α → Prop} (hc : c.Lawful fits) (f : α → Message)
    {a : α} (h : fits a) (rest : List UInt8) :
    (c.decode (c.encode a ++ rest)).map (fun (a, rest) => (f a, rest)) = .ok (f a, rest) := by
  rw [hc.decode_encode a rest h]
  rfl

theorem eq_of_decode_as {α : Type} {c : Codec α} {fits : α → Prop} (hc : c.Lawful fits)
    {f : α → Message} {bytes rest : List UInt8} {m : Message}
    (h : (c.decode bytes).map (fun (a, rest) => (f a, rest)) = .ok (m, rest)) :
    ∃ a, fits a ∧ m = f a ∧ bytes = c.encode a ++ rest := by
  cases hd : c.decode bytes with
  | error e => rw [hd] at h; cases h
  | ok p =>
    rw [hd] at h
    simp only [Except.map, Except.ok.injEq, Prod.mk.injEq] at h
    obtain ⟨rfl, rfl⟩ := h
    obtain ⟨hf, he⟩ := hc.eq_encode _ _ _ hd
    exact ⟨p.1, hf, rfl, he⟩

theorem decodeBody_encodeBody {m : Message} (h : m.Fits) (rest : List UInt8) :
    decodeBody m.tag (m.encodeBody ++ rest) = .ok (m, rest) := by
  cases m with
  | hello v => exact decode_as Lawful.u8 hello trivial rest
  | reason r => exact decode_as reasonCodec_lawful reason (reason_mem_all r) rest
  | int32 v => exact decode_as Lawful.i32 int32 trivial rest
  | float32 v => exact decode_as Lawful.single float32 trivial rest
  | bool v => exact decode_as Lawful.bool bool trivial rest
  | vector3 v => exact decode_as pointCodec_lawful vector3 trivial rest
  | matrix m => exact decode_as Lawful.matrix matrix trivial rest
  | winDims w l =>
    exact decode_as dimsCodec_lawful (fun d => winDims d.1 d.2) ⟨trivial, trivial⟩ rest
  | transferFunction t => exact decode_as Lawful.transferFunction transferFunction h rest
  | bricks bs => exact decode_as bricksCodec_lawful bricks ⟨h, fun _ _ => trivial⟩ rest
  | image i => exact decode_as Lawful.image image h rest

theorem eq_of_decodeBody {tag : UInt32} {bytes rest : List UInt8} {m : Message}
    (h : decodeBody tag bytes = .ok (m, rest)) :
    m.Fits ∧ tag = m.tag ∧ bytes = m.encodeBody ++ rest := by
  simp only [decodeBody] at h
  have htag : ∀ k, tag.toNat = k → tag = UInt32.ofNat k := fun k hk => by
    rw [← hk, UInt32.ofNat_toNat]
  split at h <;> rename_i hk
  · obtain ⟨v, -, rfl, rfl⟩ := eq_of_decode_as Lawful.u8 h
    exact ⟨trivial, htag 0 hk, rfl⟩
  · obtain ⟨r, -, rfl, rfl⟩ := eq_of_decode_as reasonCodec_lawful h
    exact ⟨trivial, htag 1 hk, rfl⟩
  · obtain ⟨v, -, rfl, rfl⟩ := eq_of_decode_as Lawful.i32 h
    exact ⟨trivial, htag 2 hk, rfl⟩
  · obtain ⟨v, -, rfl, rfl⟩ := eq_of_decode_as Lawful.single h
    exact ⟨trivial, htag 3 hk, rfl⟩
  · obtain ⟨v, -, rfl, rfl⟩ := eq_of_decode_as Lawful.bool h
    exact ⟨trivial, htag 4 hk, rfl⟩
  · obtain ⟨v, -, rfl, rfl⟩ := eq_of_decode_as pointCodec_lawful h
    exact ⟨trivial, htag 5 hk, rfl⟩
  · obtain ⟨v, -, rfl, rfl⟩ := eq_of_decode_as Lawful.matrix h
    exact ⟨trivial, htag 6 hk, rfl⟩
  · obtain ⟨⟨w, l⟩, -, rfl, rfl⟩ :=
      eq_of_decode_as (f := fun d => winDims d.1 d.2) dimsCodec_lawful h
    exact ⟨trivial, htag 7 hk, rfl⟩
  · obtain ⟨t, ht, rfl, rfl⟩ := eq_of_decode_as Lawful.transferFunction h
    exact ⟨ht, htag 8 hk, rfl⟩
  · obtain ⟨bs, hbs, rfl, rfl⟩ := eq_of_decode_as bricksCodec_lawful h
    exact ⟨hbs.1, htag 9 hk, rfl⟩
  · obtain ⟨i, hi, rfl, rfl⟩ := eq_of_decode_as Lawful.image h
    exact ⟨hi, htag 10 hk, rfl⟩
  · cases h

/-- Reading a message accepts exactly what writing one produces. -/
theorem codec_lawful : codec.Lawful Fits where
  size_eq m h := by
    show 4 + m.bodySize = (Codec.u32.encode m.tag ++ m.encodeBody).length
    rw [List.length_append, bodySize_eq h]
    rfl
  decode_encode m rest h := by
    simp only [codec, List.append_assoc, Lawful.u32.decode_encode _ _ trivial, Except.bind,
      decodeBody_encodeBody h]
  eq_encode bytes m rest h := by
    simp only [codec] at h
    cases hd : Codec.u32.decode bytes with
    | error e => rw [hd] at h; cases h
    | ok p =>
      obtain ⟨tag, rest'⟩ := p
      rw [hd] at h
      obtain ⟨-, rfl⟩ := Lawful.u32.eq_encode _ _ _ hd
      obtain ⟨hf, rfl, rfl⟩ := eq_of_decodeBody h
      exact ⟨hf, by simp only [codec, List.append_assoc]⟩

theorem ofPayload?_payload {m : Message} (h : m.Fits) : ofPayload? m.payload = .ok m := by
  have hd := codec_lawful.decode_encode m [] h
  rw [List.append_nil] at hd
  rw [ofPayload?, payload, hd]
  rfl

/-! ### Frames -/

theorem length_le_sum_size {α : Type} {c : Codec α} (hc : ∀ a, 1 ≤ c.size a) (as : List α) :
    as.length ≤ (as.map c.size).sum := by
  induction as with
  | nil => simp
  | cons a as ih => have := hc a; simp only [List.length_cons, List.map_cons, List.sum_cons]; omega

theorem bricks_size (bs : List Brick) : codec.size (.bricks bs) = 12 + 36 * bs.length := by
  have hsize : codec.size (.bricks bs) = 4 + (8 + (bs.map Codec.brick.size).sum) :=
    congrArg (4 + ·) (list_size _ _)
  have hbrick : bs.map Codec.brick.size = List.replicate bs.length 36 :=
    List.map_eq_replicate_iff.2 fun _ _ => rfl
  rw [hsize, hbrick, List.sum_replicate_nat]
  omega

/-- A list or buffer is no longer than what is written of it, so what is small enough for a frame
fits. -/
theorem fits_of_size {m : Message} (h : codec.size m ≤ maxPayload) : m.Fits := by
  simp only [codec, maxPayload] at h
  cases m with
  | transferFunction t =>
    have hs : Codec.transferFunction.size t = Codec.controlPoint.list.size t.points + 4 := rfl
    have hl := length_le_sum_size (c := Codec.controlPoint) (fun _ => Nat.le_add_left 1 _) t.points
    rw [bodySize, hs, list_size] at h
    show t.points.length < 2 ^ 64
    omega
  | bricks bs =>
    have hl := length_le_sum_size (c := Codec.brick) (fun _ => Nat.le_add_left 1 _) bs
    rw [bodySize, bricksCodec, list_size] at h
    show bs.length < 2 ^ 64
    omega
  | image i =>
    have hs : Codec.image.size i = 8 + (8 + (Codec.rect.size i.rect +
      (8 + 1 * i.colour.size + (Codec.option (Codec.array Codec.single 4)).size i.depth))) := rfl
    rw [bodySize, hs] at h
    refine ⟨by omega, fun d hd => ?_⟩
    rw [Option.mem_def] at hd
    have hdepth : (Codec.option (Codec.array Codec.single 4)).size (some d) =
      1 + (8 + 4 * d.size) := rfl
    rw [hd, hdepth] at h
    omega
  | _ => trivial

/-- A message that a frame can hold. -/
def Framed (m : Message) : Prop := codec.size m ≤ maxPayload

instance (m : Message) : Decidable m.Framed := inferInstanceAs (Decidable (_ ≤ _))

theorem Framed.fits {m : Message} (h : m.Framed) : m.Fits := fits_of_size h

theorem Framed.payload_length {m : Message} (h : m.Framed) : m.payload.length = codec.size m :=
  (codec_lawful.size_eq m h.fits).symm

/-- The four bytes in front of a frame's payload. -/
def header (m : Message) : List UInt8 := Codec.u32.encode (UInt32.ofNat (codec.size m))

theorem frame_eq (m : Message) : m.frame = m.header ++ m.payload := rfl

@[simp] theorem header_length (m : Message) : m.header.length = 4 := littleEndian_length 4 _

theorem ofLittleEndian_length {n : Nat} (h : n < 2 ^ 32) :
    ofLittleEndian (Codec.u32.encode (UInt32.ofNat n)) = n := by
  show ofLittleEndian (littleEndian 4 (UInt32.ofNat n).toNat) = n
  rw [ofLittleEndian_littleEndian (UInt32.toNat_lt _), UInt32.toNat_ofNat_of_lt' h]

theorem Framed.ofLittleEndian_header {m : Message} (h : m.Framed) :
    ofLittleEndian m.header = codec.size m :=
  ofLittleEndian_length (Nat.lt_of_le_of_lt h (by decide))

theorem frame_ne_nil (m : Message) : m.frame ≠ [] := by
  intro h
  have := congrArg List.length h
  simp [frame_eq] at this

end Message
end SortLast
