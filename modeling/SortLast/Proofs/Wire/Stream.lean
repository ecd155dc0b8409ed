import SortLast.Proofs.Wire.Message
import SortLast.Command

/-!
# Reading a stream of commands

What is read from a source depends only on the bytes that are still to come, never on the chunks in
which they arrive.

* `Source.bytes`: the bytes still to come.
* `frameOf`, `Source.readMessage_frameOf`: the frame of any payload is read as the payload is decoded.
* `Source.readMessage_frame`, `Source.readMessage_short`: a whole frame gives its message, a cut one
  the end of the stream.
* `Source.Reads`: several messages read one after the other.
* `Unfinished`: bytes that hold no whole command; `Command.unfinished_cut` says that a command cut
  anywhere leaves such bytes.
* `Source.commands_eq`: a stream of commands with an unfinished rest is read as those commands.
-/

namespace SortLast

/-! ### Bytes -/

namespace Source

/-- All bytes still to come. -/
def bytes (s : Source) : List UInt8 := s.chunks.flatten

@[simp] theorem bytes_ofBytes (b : List UInt8) : (ofBytes b).bytes = b := by simp [bytes, ofBytes]

theorem splitChunk_eq (n : Nat) (chunk : List UInt8) :
    splitChunk n chunk = ⟨chunk.take n, n - chunk.length, chunk.drop n⟩ := by
  induction n generalizing chunk with
  | zero => simp [splitChunk]
  | succ n ih =>
    cases chunk with
    | nil => simp [splitChunk]
    | cons b chunk => simp [splitChunk, ih]

theorem takeChunks_of_le {n : Nat} {chunks : List (List UInt8)} (h : n ≤ chunks.flatten.length) :
    ∃ rest, takeChunks n chunks = some (chunks.flatten.take n, rest) ∧
      rest.flatten = chunks.flatten.drop n := by
  induction chunks generalizing n with
  | nil => exact ⟨[], by simp_all [takeChunks]⟩
  | cons chunk chunks ih =>
    rw [List.flatten_cons, List.length_append] at h
    simp only [takeChunks, splitChunk_eq, List.flatten_cons]
    by_cases hn : n - chunk.length = 0
    · have hle : n ≤ chunk.length := by omega
      refine ⟨chunk.drop n :: chunks, ?_, ?_⟩
      · rw [if_pos hn, List.take_append_of_le_length hle]
      · rw [List.flatten_cons, List.drop_append_of_le_length hle]
    · obtain ⟨rest, ht, hr⟩ := ih (n := n - chunk.length) (by omega)
      refine ⟨rest, ?_, ?_⟩
      · rw [if_neg hn, ht, Option.map_some, List.take_append]
      · rw [hr, List.drop_append, List.drop_eq_nil_of_le (show chunk.length ≤ n by omega),
          List.nil_append]

theorem takeChunks_of_lt {n : Nat} {chunks : List (List UInt8)} (h : chunks.flatten.length < n) :
    takeChunks n chunks = none := by
  cases ht : takeChunks n chunks with
  | none => rfl
  | some p =>
    obtain ⟨taken, rest⟩ := p
    have := takeChunks_length ht
    omega

theorem readExact_append {s : Source} {a b : List UInt8} (h : s.bytes = a ++ b) :
    ∃ t, s.readExact a.length = (.ok a, t) ∧ t.bytes = b ∧ t.failure = s.failure := by
  have hle : a.length ≤ s.chunks.flatten.length := by
    rw [show s.chunks.flatten = a ++ b from h, List.length_append]
    omega
  obtain ⟨rest, ht, hr⟩ := takeChunks_of_le hle
  rw [show s.chunks.flatten = a ++ b from h, List.take_left] at ht
  rw [show s.chunks.flatten = a ++ b from h, List.drop_left] at hr
  exact ⟨{ s with chunks := rest }, by rw [readExact, ht], hr, rfl⟩

theorem readExact_short {s : Source} {n : Nat} (h : s.bytes.length < n) :
    s.readExact n = (.error s.ending, { s with chunks := [] }) := by
  rw [readExact, takeChunks_of_lt h]

end Source

/-! ### Messages -/

/-- The frame of any payload, a message or not: its length as a 32-bit word, then the payload. -/
def frameOf (payload : List UInt8) : List UInt8 :=
  Codec.u32.encode (UInt32.ofNat payload.length) ++ payload

theorem Message.Framed.frame_eq_frameOf {m : Message} (h : m.Framed) : m.frame = frameOf m.payload := by
  rw [Message.frame, frameOf, h.payload_length]

namespace Source

/-- One frame is read as its payload is decoded, and it is taken off the stream either way. -/
theorem readMessage_frameOf {s : Source} {payload b : List UInt8} (hp : payload.length ≤ maxPayload)
    (h : s.bytes = frameOf payload ++ b) :
    ∃ t, s.readMessage = ((Message.ofPayload? payload).mapError .encoding, t) ∧ t.bytes = b ∧
      t.failure = s.failure := by
  have hlength := Message.ofLittleEndian_length (Nat.lt_of_le_of_lt hp (by decide))
  rw [frameOf, List.append_assoc] at h
  obtain ⟨t, ht, htb, htf⟩ := readExact_append h
  obtain ⟨u, hu, hub, huf⟩ := readExact_append htb
  rw [show (Codec.u32.encode (UInt32.ofNat payload.length)).length = 4 from
    Codec.littleEndian_length 4 _] at ht
  refine ⟨u, ?_, hub, huf.trans htf⟩
  rw [readMessage, ht]
  simp only [hlength]
  rw [if_neg (Nat.not_lt.2 hp), hu]
  dsimp only
  rcases Message.ofPayload? payload with - | m <;> rfl

/-- A whole frame is read as its message, whatever follows it. -/
theorem readMessage_frame {s : Source} {m : Message} {b : List UInt8} (hm : m.Framed)
    (h : s.bytes = m.frame ++ b) :
    ∃ t, s.readMessage = (.ok m, t) ∧ t.bytes = b ∧ t.failure = s.failure := by
  have hp : m.payload.length ≤ maxPayload := hm.payload_length ▸ hm
  rw [hm.frame_eq_frameOf] at h
  obtain ⟨t, ht, hkeep⟩ := readMessage_frameOf hp h
  rw [Message.ofPayload?_payload hm.fits] at ht
  exact ⟨t, ht, hkeep⟩

/-- A frame that is cut anywhere is the end of the stream. -/
theorem readMessage_short {s : Source} {m : Message} (hm : m.Framed) (h : s.bytes <+: m.frame)
    (hne : s.bytes ≠ m.frame) : ∃ t, s.readMessage = (.error s.ending, t) := by
  by_cases h4 : s.bytes.length < 4
  · exact ⟨_, by rw [readMessage, readExact_short h4]⟩
  · have hle : m.header.length ≤ s.bytes.length := by rw [Message.header_length]; omega
    obtain ⟨a, ha⟩ : m.header <+: s.bytes :=
      List.prefix_of_prefix_length_le ⟨m.payload, rfl⟩ h hle
    obtain ⟨t, ht, htb, htf⟩ := readExact_append ha.symm
    rw [Message.header_length] at ht
    have hlt : a.length < Message.codec.size m := by
      have hs := h.length_le
      have hneq : s.bytes.length ≠ m.frame.length := fun he => hne (h.eq_of_length he)
      rw [← ha, Message.frame_eq, List.length_append, List.length_append, hm.payload_length] at hs hneq
      omega
    have hend : t.ending = s.ending := by rw [ending, ending, htf]
    rw [readMessage, ht]
    simp only [hm.ofLittleEndian_header]
    rw [if_neg (Nat.not_lt.2 hm), readExact_short (by rwa [htb]), hend]
    exact ⟨_, rfl⟩

theorem readMessage_nil {s : Source} (h : s.bytes = []) :
    ∃ t, s.readMessage = (.error s.ending, t) :=
  ⟨_, by rw [readMessage, readExact_short (by rw [h]; decide)]⟩

/-- Reading some messages one after the other leads from one source to another. -/
inductive Reads : Source → List Message → Source → Prop
  | nil (s : Source) : Reads s [] s
  | cons {s t u : Source} {m : Message} {ms : List Message} :
      s.readMessage = (.ok m, t) → Reads t ms u → Reads s (m :: ms) u

theorem reads_frames {s : Source} {ms : List Message} {b : List UInt8} (hms : ∀ m ∈ ms, m.Framed)
    (h : s.bytes = ms.flatMap Message.frame ++ b) :
    ∃ t, Reads s ms t ∧ t.bytes = b ∧ t.failure = s.failure := by
  induction ms generalizing s with
  | nil => exact ⟨s, .nil s, h, rfl⟩
  | cons m ms ih =>
    rw [List.forall_mem_cons] at hms
    rw [List.flatMap_cons, List.append_assoc] at h
    obtain ⟨t, ht, htb, htf⟩ := readMessage_frame hms.1 h
    obtain ⟨u, hu, hub, huf⟩ := ih hms.2 htb
    exact ⟨u, .cons ht hu, hub, huf.trans htf⟩

/-- A stream of whole frames is read as their messages. -/
theorem messages_eq {s : Source} {ms : List Message} (hms : ∀ m ∈ ms, m.Framed)
    (h : s.bytes = ms.flatMap Message.frame) : s.messages = (ms, s.ending) := by
  induction ms generalizing s with
  | nil =>
    obtain ⟨t, ht⟩ := readMessage_nil h
    rw [messages]
    split
    · rename_i heq; rw [ht] at heq; cases heq
    · rename_i heq; rw [ht] at heq; cases heq; rfl
  | cons m ms ih =>
    rw [List.forall_mem_cons] at hms
    rw [List.flatMap_cons] at h
    obtain ⟨t, ht, htb, htf⟩ := readMessage_frame hms.1 h
    have hend : t.ending = s.ending := by rw [ending, ending, htf]
    rw [messages]
    split
    · rename_i heq
      rw [ht] at heq
      cases heq
      rw [ih hms.2 htb, hend]
    · rename_i heq; rw [ht] at heq; cases heq

end Source

/-! ### Commands -/

namespace Reading

variable {α β : Type}

theorem bind_run (r : Reading α) (f : α → Reading β) (s : Source) :
    (r >>= f) s = match r s with
      | (.ok a, t) => f a t
      | (.error e, t) => (.error e, t) := by
  show ExceptT.bindCont f (r s).1 (r s).2 = _
  rcases r s with ⟨_ | _, _⟩ <;> rfl

theorem expect_run (kind : Message.Kind) (select : Message → Option α) (s : Source) :
    expect kind select s = match s.readMessage with
      | (.ok m, t) => match select m with
        | some a => (.ok a, t)
        | none => (.error (.unexpected kind m.kind), t)
      | (.error e, t) => (.error e, t) := by
  rw [expect, bind_run, show s.readMessage = message s from rfl]
  rcases message s with ⟨_ | m, t⟩
  · rfl
  · cases hs : select m <;> simp only [hs] <;> rfl

theorem image_run (s : Source) :
    Reading.image s = match s.readMessage with
      | (.ok (.image i), t) => match i.validate with
        | .ok () => (.ok i, t)
        | .error e => (.error (.invalidImage e), t)
      | (.ok m, t) => (.error (.unexpected .image m.kind), t)
      | (.error e, t) => (.error e, t) := by
  rw [Reading.image, Reading.bind_run, Reading.expect_run]
  rcases s.readMessage with ⟨e | m, t⟩
  · rfl
  · cases m with
    | image i =>
      simp only
      cases i.validate <;> rfl
    | _ => rfl

end Reading

namespace Command

/-- A command whose messages all fit into frames. -/
def Framed (c : Command) : Prop := ∀ m ∈ c.messages, m.Framed

/-- Reading the messages of a command gives the command. -/
theorem run_of_reads {c : Command} {s t : Source} (h : s.Reads c.messages t) :
    Reading.command s = (.ok c, t) := by
  cases h with
  | cons hr hp =>
    rw [Reading.command, Reading.bind_run, Reading.reason, Reading.expect_run, hr]
    cases c with
    | toggleBoundingBox => cases hp; rfl
    | exit => cases hp; rfl
    | matrix p m =>
      cases hp with
      | cons h1 hp =>
        cases hp with
        | cons h2 hp =>
          cases hp
          simp only [reason, Reading.bind_run, Reading.matrix, Reading.expect_run, h1, h2]
          rfl
    | _ =>
      cases hp with
      | cons h1 hp =>
        cases hp
        simp only [reason, Reading.bind_run, Reading.winDims, Reading.int32, Reading.vector3,
          Reading.bool, Reading.transferFunction, Reading.float32, Reading.bricks,
          Reading.expect_run, h1]
        rfl

/-- A failure between the messages of a command is the failure of reading it. -/
theorem run_of_reads_error {c : Command} {m : Message} {ms rest : List Message} {s t u : Source}
    {e : NetError} (hc : c.messages = ms ++ m :: rest) (h : s.Reads ms t)
    (he : t.readMessage = (.error e, u)) : Reading.command s = (.error e, u) := by
  rw [Reading.command, Reading.bind_run, Reading.reason, Reading.expect_run]
  cases h with
  | nil => rw [he]
  | cons hr hp =>
    simp only [messages, List.cons_append, List.cons.injEq] at hc
    obtain ⟨rfl, hc⟩ := hc
    rw [hr]
    cases c with
    | toggleBoundingBox => simp [payload] at hc
    | exit => simp [payload] at hc
    | matrix p q =>
      cases hp with
      | nil => simp only [reason, Reading.bind_run, Reading.matrix, Reading.expect_run, he]
      | cons h1 hp =>
        simp only [payload, List.cons_append, List.cons.injEq] at hc
        obtain ⟨rfl, hc⟩ := hc
        cases hp with
        | nil => simp only [reason, Reading.bind_run, Reading.matrix, Reading.expect_run, h1, he]
        | cons h2 hp => simp at hc
    | _ =>
      cases hp with
      | nil =>
        simp only [reason, Reading.bind_run, Reading.winDims, Reading.int32, Reading.vector3,
          Reading.bool, Reading.transferFunction, Reading.float32, Reading.bricks,
          Reading.expect_run, he]
      | cons h1 hp => simp [payload] at hc

end Command

/-- Bytes that hold no whole command: whoever has received no more of a stream finds its end. -/
def Unfinished (w : List UInt8) : Prop :=
  ∀ s : Source, s.bytes = w → ∃ t, Reading.command s = (.error s.ending, t)

theorem Unfinished.nil : Unfinished [] := by
  intro s hs
  obtain ⟨t, ht⟩ := Source.readMessage_nil hs
  exact ⟨t, by rw [Reading.command, Reading.bind_run, Reading.reason, Reading.expect_run, ht]⟩

/-- A part of two texts, one after the other, ends in the first or in the second. -/
theorem prefix_append_cases {α : Type} {w a b : List α} (h : w <+: a ++ b) :
    w <+: a ∨ ∃ v, w = a ++ v ∧ v <+: b := by
  obtain ⟨t, ht⟩ := h
  rcases List.append_eq_append_iff.1 ht with ⟨v, ha, -⟩ | ⟨v, hw, hb⟩
  · exact .inl ⟨v, ha.symm⟩
  · exact .inr ⟨v, hw, t, hb.symm⟩

/-- A part of a list of texts, written one after the other, ends inside one of them. -/
theorem exists_cut {α β : Type} {f : α → List β} {as : List α} {w : List β}
    (h : w <+: as.flatMap f) (hne : w ≠ as.flatMap f) :
    ∃ pre a rest u, as = pre ++ a :: rest ∧ w = pre.flatMap f ++ u ∧ u <+: f a ∧ u ≠ f a := by
  induction as generalizing w with
  | nil => exact absurd (List.prefix_nil.1 h) hne
  | cons a as ih =>
    rw [List.flatMap_cons] at h hne
    rcases prefix_append_cases h with hp | ⟨v, rfl, hv⟩
    · by_cases hw : w = f a
      · have hne' : [] ≠ as.flatMap f := fun he => hne (by rw [← he, List.append_nil, hw])
        obtain ⟨pre, b, rest, u, rfl, he, hu, hub⟩ := ih List.nil_prefix hne'
        obtain ⟨hpre, rfl⟩ := List.append_eq_nil_iff.1 he.symm
        exact ⟨a :: pre, b, rest, [], rfl, by simp [hpre, hw], hu, hub⟩
      · exact ⟨[], a, as, w, rfl, rfl, hp, hw⟩
    · have hne' : v ≠ as.flatMap f := fun he => hne (by rw [he])
      obtain ⟨pre, b, rest, u, rfl, rfl, hu, hub⟩ := ih hv hne'
      exact ⟨a :: pre, b, rest, u, rfl, by simp, hu, hub⟩

namespace Command

/-- A command that is cut before or inside one of its messages is not read. -/
theorem unfinished_of_split {c : Command} {m : Message} {ms rest : List Message} {u : List UInt8}
    (hc : c.messages = ms ++ m :: rest) (hms : ∀ x ∈ ms, x.Framed) (hu : u <+: m.frame)
    (hne : u ≠ m.frame) (hm : u = [] ∨ m.Framed) : Unfinished (ms.flatMap Message.frame ++ u) := by
  intro s hs
  obtain ⟨t, ht, htb, htf⟩ := Source.reads_frames hms hs
  have hend : t.ending = s.ending := by rw [Source.ending, Source.ending, htf]
  have hread : ∃ v, t.readMessage = (.error s.ending, v) := by
    rw [← hend]
    rcases hm with rfl | hm
    · exact Source.readMessage_nil htb
    · exact Source.readMessage_short hm (by rwa [htb]) (by rwa [htb])
  obtain ⟨v, hv⟩ := hread
  exact ⟨v, run_of_reads_error hc ht hv⟩

/-- A command that is cut anywhere is not read. -/
theorem unfinished_cut {c : Command} {w : List UInt8} (hc : c.Framed) (h : w <+: c.bytes)
    (hne : w ≠ c.bytes) : Unfinished w := by
  obtain ⟨ms, m, rest, u, hs, rfl, hu, hub⟩ := exists_cut h hne
  refine unfinished_of_split hs (fun x hx => hc x ?_) hu hub (.inr (hc m ?_)) <;> rw [hs]
  · exact List.mem_append_left _ hx
  · exact List.mem_append_right _ List.mem_cons_self

/-- The bytes of a command are read as that command, whatever follows them. -/
theorem run_bytes {c : Command} (hc : c.Framed) {s : Source} {b : List UInt8}
    (h : s.bytes = c.bytes ++ b) :
    ∃ t, Reading.command s = (.ok c, t) ∧ t.bytes = b ∧ t.failure = s.failure := by
  obtain ⟨t, ht, htb, htf⟩ := Source.reads_frames hc h
  exact ⟨t, run_of_reads ht, htb, htf⟩

end Command

/-- A stream of commands with an unfinished rest is read as those commands, in whatever chunks it
arrives. -/
theorem Source.commands_eq {s : Source} {cs : List Command} {w : List UInt8}
    (hcs : ∀ c ∈ cs, c.Framed) (hw : Unfinished w) (h : s.bytes = cs.flatMap Command.bytes ++ w) :
    s.commands = (cs, s.ending) := by
  induction cs generalizing s with
  | nil =>
    obtain ⟨t, ht⟩ := hw s h
    rw [Source.commands]
    split
    · rename_i heq; rw [ht] at heq; cases heq
    · rename_i heq; rw [ht] at heq; cases heq; rfl
  | cons c cs ih =>
    rw [List.forall_mem_cons] at hcs
    rw [List.flatMap_cons, List.append_assoc] at h
    obtain ⟨t, ht, htb, htf⟩ := Command.run_bytes hcs.1 h
    have hend : t.ending = s.ending := by rw [ending, ending, htf]
    rw [Source.commands]
    split
    · rename_i heq
      rw [ht] at heq
      cases heq
      rw [ih hcs.2 htb, hend]
    · rename_i heq; rw [ht] at heq; cases heq

end SortLast
