import SortLast.Proofs.Wire.Truncation

/-!
# Frames are read one by one

A payload is any bytes, a message or not. What a read makes of a frame depends on its payload alone,
and whether it succeeds or fails, the next read finds the next frame.

* `Get`: the reads of one message; `Get.read` runs one, `Get.accept` says what it makes of a message.
* `Get.outcome`: what a read makes of a payload.
* `Get.read_frame`: one read takes one frame off the stream.
* `Get.read_isolated`: a series of reads.
-/

namespace SortLast

/-! ### Reads of one message -/

namespace Message

/-- What a message of a kind carries. -/
abbrev Kind.Value : Kind → Type
  | hello => UInt8
  | reason => Reason
  | int32 => Int32
  | float32 => Single
  | bool => Bool
  | vector3 => Point
  | matrix => Matrix
  | winDims => Int32 × Int32
  | transferFunction => TransferFunction
  | bricks => List Brick
  | image => Image

/-- What a message carries, if it is of the given kind. -/
def value? : (kind : Kind) → Message → Option kind.Value
  | .hello, .hello v => some v
  | .reason, .reason r => some r
  | .int32, .int32 v => some v
  | .float32, .float32 v => some v
  | .bool, .bool v => some v
  | .vector3, .vector3 v => some v
  | .matrix, .matrix m => some m
  | .winDims, .winDims w h => some (w, h)
  | .transferFunction, .transferFunction t => some t
  | .bricks, .bricks bs => some bs
  | .image, .image i => some i
  | _, _ => none

/-- The check of what a message carries: an image has to have buffers that fit its rectangle. -/
def Kind.check : (kind : Kind) → kind.Value → Except NetError kind.Value
  | image, i => match i.validate with
    | .ok () => .ok i
    | .error e => .error (.invalidImage e)
  | _, v => .ok v

end Message

/-- A read of one message. -/
inductive Get where
  | any
  | typed (kind : Message.Kind)
  deriving DecidableEq, Repr

namespace Get

/-- What a read gives. -/
abbrev Value : Get → Type
  | any => Message
  | typed kind => kind.Value

/-- The read itself. -/
def read : (g : Get) → Reading g.Value
  | any => Reading.message
  | typed .hello => Reading.hello
  | typed .reason => Reading.reason
  | typed .int32 => Reading.int32
  | typed .float32 => Reading.float32
  | typed .bool => Reading.bool
  | typed .vector3 => Reading.vector3
  | typed .matrix => Reading.matrix
  | typed .winDims => Reading.winDims
  | typed .transferFunction => Reading.transferFunction
  | typed .bricks => Reading.bricks
  | typed .image => Reading.image

/-- What a read makes of a message. -/
def accept : (g : Get) → Message → Except NetError g.Value
  | any, m => .ok m
  | typed kind, m => match m.value? kind with
    | some v => kind.check v
    | none => .error (.unexpected kind m.kind)

/-- Every read takes one message and judges it. -/
theorem read_run (g : Get) (s : Source) : g.read s = match s.readMessage with
    | (.ok m, t) => (g.accept m, t)
    | (.error e, t) => (.error e, t) := by
  cases g with
  | any =>
    show s.readMessage = _
    rcases s.readMessage with ⟨_ | _, _⟩ <;> rfl
  | typed kind =>
    cases kind with
    | image =>
      show Reading.image s = _
      rw [Reading.image_run]
      rcases s.readMessage with ⟨e | m, t⟩
      · rfl
      · cases m with
        | image i =>
          simp only [accept, Message.value?, Message.Kind.check]
          cases i.validate <;> rfl
        | _ => rfl
    | _ =>
      show Reading.expect _ _ s = _
      rw [Reading.expect_run]
      rcases s.readMessage with ⟨e | m, t⟩
      · rfl
      · cases m <;> rfl

end Get

/-! ### One frame -/

namespace Get

/-- What a read makes of a payload. -/
def outcome (g : Get) (payload : List UInt8) : Except NetError g.Value :=
  match Message.ofPayload? payload with
  | .ok m => g.accept m
  | .error e => .error (.encoding e)

variable {s : Source}

/-- A read of a frame gives what it makes of the payload, and leaves what comes after the frame. -/
theorem read_frame (g : Get) {payload rest : List UInt8} (hp : payload.length ≤ maxPayload)
    (h : s.bytes = frameOf payload ++ rest) :
    ∃ t, g.read s = (g.outcome payload, t) ∧ t.bytes = rest ∧ t.failure = s.failure := by
  obtain ⟨t, ht, hkeep⟩ := Source.readMessage_frameOf hp h
  refine ⟨t, ?_, hkeep⟩
  rw [read_run, ht, outcome]
  cases Message.ofPayload? payload <;> rfl

/-- A read after the last frame finds the stream closed, and so will the next one. -/
theorem read_closed (g : Get) (hend : s.failure = none) (h : s.bytes = []) :
    ∃ t, g.read s = (.error .closed, t) ∧ t.bytes = [] ∧ t.failure = s.failure := by
  obtain ⟨t, ht⟩ := Source.readMessage_nil h
  have hfailure := s.readMessage_failure
  rw [Source.ending, hend] at ht
  rw [ht] at hfailure
  exact ⟨t, by rw [read_run, ht], Source.readMessage_closed ht, hfailure⟩

end Get

/-! ### Series of reads -/

/-- The stream after a series of reads, whatever their results. -/
def Source.after (s : Source) (gets : List Get) : Source := gets.foldl (fun s g => (g.read s).2) s

/-- As many reads as there were take as many frames off the stream. -/
theorem Source.after_frames {s : Source} (hend : s.failure = none) {payloads : List (List UInt8)}
    (hsize : ∀ p ∈ payloads, p.length ≤ maxPayload) (h : s.bytes = payloads.flatMap frameOf)
    (gets : List Get) :
    (s.after gets).bytes = (payloads.drop gets.length).flatMap frameOf ∧
      (s.after gets).failure = none := by
  induction gets generalizing s payloads with
  | nil => exact ⟨h, hend⟩
  | cons g gets ih =>
    show (((g.read s).2).after gets).bytes = _ ∧ (((g.read s).2).after gets).failure = none
    cases payloads with
    | nil =>
      obtain ⟨t, ht, htb, htf⟩ := g.read_closed hend h
      rw [ht]
      simpa using ih (htf.trans hend) hsize htb
    | cons p payloads =>
      rw [List.forall_mem_cons] at hsize
      rw [List.flatMap_cons] at h
      obtain ⟨t, ht, htb, htf⟩ := g.read_frame hsize.1 h
      rw [ht]
      exact ih (htf.trans hend) hsize.2 htb

namespace Get

/-- Reads from a stream of frames, in any chunks. After any reads, of whatever kinds and with whatever
results, a read gives what it makes of the payload whose turn it is, which is what it gives for that
frame alone; the frames that come later are still there as a whole. Behind the last one the stream is
closed. -/
theorem read_isolated {payloads : List (List UInt8)} (hsize : ∀ p ∈ payloads, p.length ≤ maxPayload)
    {chunks : List (List UInt8)} (h : chunks.flatten = payloads.flatMap frameOf)
    (before : List Get) (g : Get) :
    let s := (Source.mk chunks none).after before
    s.bytes = (payloads.drop before.length).flatMap frameOf ∧
      (g.read s).1 = (payloads[before.length]?).elim (.error .closed) g.outcome ∧
      ∀ p ∈ payloads[before.length]?, (g.read s).1 = (g.read (.ofBytes (frameOf p))).1 := by
  intro s
  obtain ⟨hbytes, hend⟩ := Source.after_frames (s := ⟨chunks, none⟩) rfl hsize h before
  refine ⟨hbytes, ?_⟩
  rcases hnext : payloads[before.length]? with - | p
  · rw [List.drop_eq_nil_of_le (List.getElem?_eq_none_iff.1 hnext)] at hbytes
    obtain ⟨t, ht, -⟩ := g.read_closed hend hbytes
    exact ⟨by rw [ht]; rfl, fun _ hp => by cases hp⟩
  · obtain ⟨hlt, rfl⟩ := List.getElem?_eq_some_iff.1 hnext
    have hp := hsize _ (List.getElem_mem hlt)
    rw [List.drop_eq_getElem_cons hlt, List.flatMap_cons] at hbytes
    obtain ⟨t, ht, -⟩ := g.read_frame hp hbytes
    -- the same frame, with nothing behind it
    have halone : (Source.ofBytes (frameOf payloads[before.length])).bytes =
        frameOf payloads[before.length] ++ [] := by rw [Source.bytes_ofBytes, List.append_nil]
    obtain ⟨u, hu, -⟩ := g.read_frame hp halone
    refine ⟨by rw [ht]; rfl, ?_⟩
    rintro _ ⟨⟩
    rw [ht, hu]

/-- A truth value that is none, a message of another kind with bytes after it, an image without its
pixels, and an integer: three reads fail, the fourth reads the integer, the fifth finds the end. -/
theorem read_isolated_mixed :
    let payloads : List (List UInt8) := [[4, 0, 0, 0, 2], [4, 0, 0, 0, 1, 7, 7],
      (Message.image { rect := ⟨0, 0, 1, 1⟩ }).payload, [2, 0, 0, 0, 5, 0, 0, 0]]
    let s := Source.ofBytes (payloads.flatMap frameOf)
    let reads : List Get := [.typed .bool, .typed .int32, .typed .image, .typed .int32]
    (read (.typed .bool) (s.after (reads.take 0))).1 = .error (.encoding (.badBool 2)) ∧
      (read (.typed .int32) (s.after (reads.take 1))).1 = .error (.unexpected .int32 .bool) ∧
      (read (.typed .image) (s.after (reads.take 2))).1 =
        .error (.invalidImage (.colourSize 0 4 1 1)) ∧
      (read (.typed .int32) (s.after (reads.take 3))).1 = .ok (5 : Int32) ∧
      (read any (s.after (reads.take 4))).1 = .error .closed := by
  intro payloads s reads
  have hsize : ∀ p ∈ payloads, p.length ≤ maxPayload := by decide
  have hone : [payloads.flatMap frameOf].flatten = payloads.flatMap frameOf := by simp
  have hread := read_isolated hsize hone
  refine ⟨?_, ?_, ?_, ?_, ?_⟩
  · exact (hread _ _).2.1.trans (by decide)
  · exact (hread _ _).2.1.trans (by decide)
  · exact (hread _ _).2.1.trans (by decide)
  · exact (hread _ _).2.1.trans (by decide)
  · exact (hread _ _).2.1.trans (by decide)

end Get
end SortLast
