import SortLast.Wire.Message

/-!
# Reading messages

A source is a byte stream that arrives in chunks and then ends, or fails. Reading gathers whole
frames, whatever the chunks are.

* `Source.readExact`: exactly so many bytes.
* `Source.readMessage`: the next message.
* `Reading`: reading that may fail, with a typed read per kind of message.
* `Source.messages`: all messages up to the first failure.
-/

namespace SortLast

/-- The rest of a byte stream. -/
structure Source where
  /-- The bytes still to come, in the pieces in which they arrive. -/
  chunks : List (List UInt8)
  /-- How the stream fails after them; without a failure it ends. -/
  failure : Option IoError := none
  deriving DecidableEq, Repr

namespace Source

/-- A stream that arrives in one piece and then ends. -/
def ofBytes (bytes : List UInt8) : Source := ⟨[bytes], none⟩

/-- The number of bytes still to come. -/
def size (s : Source) : Nat := s.chunks.flatten.length

/-- What taking some bytes off a chunk gives. -/
structure Split where
  taken : List UInt8
  /-- How many bytes the chunk was short. -/
  missing : Nat
  rest : List UInt8

/-- Take up to `n` bytes off a chunk. -/
def splitChunk : Nat → List UInt8 → Split
  | 0, chunk => ⟨[], 0, chunk⟩
  | n + 1, [] => ⟨[], n + 1, []⟩
  | n + 1, b :: chunk => { splitChunk n chunk with taken := b :: (splitChunk n chunk).taken }

/-- Take exactly `n` bytes off a list of chunks, if they hold so many. -/
def takeChunks : Nat → List (List UInt8) → Option (List UInt8 × List (List UInt8))
  | n, [] => if n = 0 then some ([], []) else none
  | n, chunk :: chunks =>
    let split := splitChunk n chunk
    if split.missing = 0 then some (split.taken, split.rest :: chunks)
    else (takeChunks split.missing chunks).map fun more => (split.taken ++ more.1, more.2)

/-- How a stream that holds too few bytes fails. -/
def ending (s : Source) : NetError :=
  match s.failure with
  | none => .closed
  | some e => if e.kind = .unexpectedEof then .closed else .io e

/-- Read exactly `n` bytes. A stream that ends before has no bytes left. -/
def readExact (s : Source) (n : Nat) : Except NetError (List UInt8) × Source :=
  match takeChunks n s.chunks with
  | some (bytes, rest) => (.ok bytes, { s with chunks := rest })
  | none => (.error s.ending, { s with chunks := [] })

/-- Read the next frame and decode its payload. -/
def readMessage (s : Source) : Except NetError Message × Source :=
  match s.readExact 4 with
  | (.error e, s) => (.error e, s)
  | (.ok lengthBytes, s) =>
    let length := Codec.ofLittleEndian lengthBytes
    if maxPayload < length then (.error (.tooLarge length), s)
    else match s.readExact length with
      | (.error e, s) => (.error e, s)
      | (.ok payload, s) =>
        match Message.ofPayload? payload with
        | .ok m => (.ok m, s)
        | .error e => (.error (.encoding e), s)

theorem splitChunk_length (n : Nat) (chunk : List UInt8) :
    (splitChunk n chunk).missing + chunk.length = n + (splitChunk n chunk).rest.length := by
  induction n generalizing chunk with
  | zero => simp [splitChunk]
  | succ n ih =>
    cases chunk with
    | nil => simp [splitChunk]
    | cons b chunk => have := ih chunk; simp only [splitChunk, List.length_cons]; omega

theorem splitChunk_rest (n : Nat) (chunk : List UInt8) :
    (splitChunk n chunk).missing = 0 ∨ (splitChunk n chunk).rest = [] := by
  induction n generalizing chunk with
  | zero => simp [splitChunk]
  | succ n ih =>
    cases chunk with
    | nil => simp [splitChunk]
    | cons b chunk => simpa [splitChunk] using ih chunk

theorem takeChunks_length {n : Nat} {chunks : List (List UInt8)} {bytes : List UInt8}
    {rest : List (List UInt8)} (h : takeChunks n chunks = some (bytes, rest)) :
    rest.flatten.length + n = chunks.flatten.length := by
  induction chunks generalizing n bytes rest with
  | nil => simp_all [takeChunks]
  | cons chunk chunks ih =>
    have hs := splitChunk_length n chunk
    simp only [takeChunks] at h
    split at h
    · simp only [Option.some.injEq, Prod.mk.injEq] at h
      rw [← h.2]
      simp only [List.flatten_cons, List.length_append]
      omega
    · rename_i hm
      obtain ⟨more, hl, hr⟩ := Option.map_eq_some_iff.1 h
      simp only [Prod.mk.injEq] at hr
      have hrest := (splitChunk_rest n chunk).resolve_left hm
      have := ih hl
      rw [hrest] at hs
      rw [← hr.2]
      simp only [List.flatten_cons, List.length_append, List.length_nil] at hs ⊢
      omega

/-- Reading bytes uses up that many. -/
theorem readExact_size {s t : Source} {n : Nat} {bytes : List UInt8}
    (h : s.readExact n = (.ok bytes, t)) : t.size + n = s.size := by
  simp only [readExact] at h
  split at h
  · rename_i heq
    simp only [Prod.mk.injEq] at h
    rw [← h.2]
    exact takeChunks_length heq
  · simp at h

/-- A message takes at least the four bytes of its length off the stream. -/
theorem readMessage_size {s t : Source} {m : Message} (h : s.readMessage = (.ok m, t)) :
    t.size + 4 ≤ s.size := by
  simp only [readMessage] at h
  split at h
  · simp at h
  · rename_i h4
    have h4 := readExact_size h4
    split at h
    · simp at h
    · split at h
      · simp at h
      · rename_i hp
        have hp := readExact_size hp
        split at h
        · simp only [Prod.mk.injEq] at h
          rw [← h.2]
          omega
        · simp at h

/-- All messages up to the first failure, and that failure. -/
def messages (s : Source) : List Message × NetError :=
  match h : s.readMessage with
  | (.ok m, t) =>
    have := readMessage_size h
    let (ms, e) := messages t
    (m :: ms, e)
  | (.error e, _) => ([], e)
  termination_by s.size

end Source

/-- Reading that may fail; a failure leaves the stream where it was reached. -/
abbrev Reading := ExceptT NetError (StateM Source)

namespace Reading

/-- Read any message. -/
def message : Reading Message := fun s => s.readMessage

/-- Read a message of one kind. -/
def expect {α : Type} (kind : Message.Kind) (select : Message → Option α) : Reading α := do
  let m ← message
  match select m with
  | some a => return a
  | none => throw (.unexpected kind m.kind)

/-- Read the peer's protocol version. -/
def hello : Reading UInt8 := expect .hello fun | .hello v => some v | _ => none

/-- Read the tag of a command. -/
def reason : Reading Reason := expect .reason fun | .reason r => some r | _ => none

/-- Read a signed integer. -/
def int32 : Reading Int32 := expect .int32 fun | .int32 v => some v | _ => none

/-- Read a scalar. -/
def float32 : Reading Single := expect .float32 fun | .float32 v => some v | _ => none

/-- Read a truth value. -/
def bool : Reading Bool := expect .bool fun | .bool v => some v | _ => none

/-- Read a vector. -/
def vector3 : Reading Point := expect .vector3 fun | .vector3 v => some v | _ => none

/-- Read a matrix. -/
def matrix : Reading Matrix := expect .matrix fun | .matrix m => some m | _ => none

/-- Read a window size. -/
def winDims : Reading (Int32 × Int32) :=
  expect .winDims fun | .winDims w h => some (w, h) | _ => none

/-- Read a transfer function. -/
def transferFunction : Reading TransferFunction :=
  expect .transferFunction fun | .transferFunction t => some t | _ => none

/-- Read a list of bricks. -/
def bricks : Reading (List Brick) := expect .bricks fun | .bricks bs => some bs | _ => none

/-- Read an image whose buffers fit its rectangle. -/
def image : Reading Image := do
  let i ← expect .image fun | .image i => some i | _ => none
  match i.validate with
  | .ok () => return i
  | .error e => throw (.invalidImage e)

/-- Read an image in a build: a checked one may not get over the check of its buffers. -/
def imageIn (b : Build) (s : Source) : Except Fault (Except NetError Image × Source) :=
  match s.readMessage with
  | (.ok (.image i), rest) => do
    match ← i.validateIn b with
    | .ok () => return (.ok i, rest)
    | .error e => return (.error (.invalidImage e), rest)
  | _ => return Reading.image s

end Reading

end SortLast
