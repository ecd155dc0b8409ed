import SortLast.Proofs.Cluster.Participants

/-!
# The seat of one participant

What the cluster keeps for one participant: the sending end, the worker, the slot, and what the
participant has sent. Every move changes a seat in one of a few ways, whatever goes on elsewhere, and
each of them keeps the seat consistent: the images in it are the ones that the participant answers the
commands in it with, numbered in the order of the cameras.

* `Seat.Step`: the ways in which a seat changes.
* `Seat.Linked`, `Seat.Link`: the invariant.
* `Seat.Link.step`: every change keeps it.
* `Seat.Link.slot_cases`: what a slot holds is the answer to the camera of the same number.
-/

namespace SortLast

/-- The image as the image of a participant, whatever it says about itself. -/
def Image.attributed (i : Image) (p : Nat) : Image := { i with participant := UInt64.ofNat p }

/-- The worker has not met with a failure or a closed barrier. -/
def WorkerPhase.Reads : WorkerPhase → Prop
  | receiving | storing _ | arriving | waiting _ => True
  | _ => False

/-- The content of a slot after so many images, of those that were taken off the stream. -/
def slotAfter (p : Nat) (read : List Image) (delivered : Nat) : Option SlotEntry :=
  (read.take delivered).getLast?.map fun i => ⟨delivered, i.attributed p⟩

theorem slotAfter_succ {p : Nat} {read : List Image} {k : Nat} (hk : k < read.length) :
    slotAfter p read (k + 1) = some ⟨k + 1, read[k].attributed p⟩ := by
  rw [slotAfter, List.getLast?_eq_getElem?, List.length_take_of_le hk, Nat.succ_sub_one,
    List.getElem?_take_of_lt (Nat.lt_succ_self k), List.getElem?_eq_getElem hk]
  rfl

/-- How many images were delivered, of those that were taken off the stream: all of them, unless the
last one is about to be stored. -/
def WorkerPhase.Counts (p : Nat) (read : List Image) (delivered : Nat) : WorkerPhase → Prop
  | storing image => ∃ hk : delivered < read.length,
      read.length = delivered + 1 ∧ image = read[delivered].attributed p
  | receiving | arriving | waiting _ => read.length = delivered
  | _ => True

/-- One step of a worker: what becomes of it, and what it stores in its slot. -/
inductive Worker.Step (w : Worker) : Worker → Option SlotEntry → Prop
  | receive {image : Image} {inbox : Inbox} : w.phase = .receiving →
      w.inbox.receive? = some (.ok image, inbox) →
      Step w { w with inbox, phase := .storing image } none
  | store {image : Image} : w.phase = .storing image →
      Step w { w with delivered := w.delivered + 1, phase := .arriving }
        (some ⟨w.delivered + 1, image⟩)
  | meet {phase : WorkerPhase} : (w.phase = .arriving ∨ ∃ g, w.phase = .waiting g) →
      (phase = .receiving ∨ ∃ g, phase = .waiting g) → Step w { w with phase } none
  | fail {v : Worker} : ¬ v.phase.Reads → v.delivered = w.delivered → (v.alive → w.alive) →
      Step w v none

/-- What belongs to one participant. -/
structure Seat where
  proxy : Proxy
  worker : Worker
  slot : Option SlotEntry
  sent : List UInt8

namespace Seat

/-- The receiving end is closed. -/
def shut (a : Seat) : Seat := { a with worker := { a.worker with inbox := a.worker.inbox.close } }

/-- The sending end becomes `q`. Once it is closed, the receiving end is, too. -/
def putProxy (a : Seat) (q : Proxy) : Seat :=
  if q.isConnected then { a with proxy := q } else { a with proxy := q }.shut

/-- One change of a seat, where the coordinator may send certain commands and the participant keeps to
a behaviour. -/
inductive Step (may : Command → Prop) (keeps : List UInt8 → List UInt8 → Prop) (a : Seat) : Seat → Prop
  | stay : Step may keeps a a
  | send {c : Command} : may c → Step may keeps a (a.putProxy (a.proxy.send c).2)
  | exit : may .exit → Step may keeps a (a.putProxy a.proxy.exit.2)
  | close : Step may keeps a (a.putProxy a.proxy.close)
  | shut : Step may keeps a a.shut
  | deliver {bytes : List UInt8} : keeps a.proxy.sink.accepted (a.sent ++ bytes) →
      Step may keeps a { a with
        sent := a.sent ++ bytes
        worker := { a.worker with inbox := a.worker.inbox.deliver bytes } }
  | hangUp (failure : Option IoError) :
      Step may keeps a { a with worker := { a.worker with inbox := a.worker.inbox.hangUp failure } }
  | work {w : Worker} {stored : Option SlotEntry} : a.worker.Step w stored →
      Step may keeps a { a with worker := w, slot := stored.or a.slot }

variable {may : Command → Prop} {keeps : List UInt8 → List UInt8 → Prop} {a b : Seat}

/-! ### What never comes back -/

@[simp] theorem putProxy_proxy (a : Seat) (q : Proxy) : (a.putProxy q).proxy = q := by
  unfold putProxy
  split <;> rfl

/-- Closing the receiving end changes nothing else of a worker. -/
theorem putProxy_worker (a : Seat) (q : Proxy) :
    (a.putProxy q).worker = a.worker ∨ (a.putProxy q).worker = a.shut.worker := by
  unfold putProxy
  split
  · exact .inl rfl
  · exact .inr rfl

theorem putProxy_delivered (a : Seat) (q : Proxy) :
    (a.putProxy q).worker.delivered = a.worker.delivered := by
  rcases putProxy_worker a q with h | h
  · rw [h]
  · rw [h]
    rfl

theorem putProxy_alive (a : Seat) (q : Proxy) : (a.putProxy q).worker.alive = a.worker.alive := by
  rcases putProxy_worker a q with h | h
  · rw [h]
  · rw [h]
    rfl

/-- The number of images delivered never falls. -/
theorem Step.delivered_le (h : Step may keeps a b) : a.worker.delivered ≤ b.worker.delivered := by
  cases h with
  | send | exit | close => rw [putProxy_delivered]
  | work hw =>
    cases hw with
    | store => exact Nat.le_succ _
    | fail _ hd => exact hd.ge
    | _ => exact Nat.le_refl _
  | _ => exact Nat.le_refl _

/-- A closed connection stays closed. -/
theorem Step.isConnected (h : Step may keeps a b) (hb : b.proxy.isConnected) : a.proxy.isConnected := by
  cases h with
  | send => exact Proxy.isConnected_of_send (by rwa [putProxy_proxy] at hb)
  | exit => simp [Proxy.exit_isConnected] at hb
  | close => simp [Proxy.close_isConnected] at hb
  | _ => exact hb

/-- A worker that has noted its end stays at its end. -/
theorem Step.alive (h : Step may keeps a b) (hb : b.worker.alive) : a.worker.alive := by
  cases h with
  | send | exit | close => rwa [putProxy_alive] at hb
  | work hw =>
    cases hw with
    | fail _ _ ha => exact ha hb
    | _ => exact hb
  | _ => exact hb

/-! ### The invariant -/

/-- The seat of participant `p` agrees with the images that the participant answers, of which `read`
were taken off the stream. The last one of those may not have been delivered yet. -/
structure Linked (images : List Image) (p : Nat) (a : Seat) (read : List Image) : Prop where
  read_prefix : read <+: images
  sent_prefix : a.sent <+: Session.greeting ++ Image.frames images
  delivered_le : a.worker.delivered ≤ read.length
  slot : a.slot = slotAfter p read a.worker.delivered
  participant : a.worker.phase.Reads →
    a.worker.inbox.receiver.participant = UInt64.ofNat p
  stream : a.worker.phase.Reads →
    a.sent = Session.greeting ++ Image.frames read ++ a.worker.inbox.receiver.source.bytes
  counts : a.worker.phase.Counts p read a.worker.delivered

/-- More answers do not disturb a seat. -/
theorem Linked.mono {images images' : List Image} {p : Nat} {read : List Image}
    (h : Linked images p a read) (hi : images <+: images') : Linked images' p a read := by
  obtain ⟨more, rfl⟩ := hi
  refine ⟨h.read_prefix.trans (List.prefix_append _ _), ?_, h.delivered_le, h.slot, h.participant,
    h.stream, h.counts⟩
  rw [Image.frames_append, ← List.append_assoc]
  exact h.sent_prefix.trans (List.prefix_append _ _)

/-- The sending end is no part of the agreement, and closing the receiving end does not matter. -/
theorem Linked.putProxy {images : List Image} {p : Nat} {read : List Image}
    (h : Linked images p a read) (q : Proxy) : Linked images p (a.putProxy q) read := by
  unfold Seat.putProxy
  split
  · exact ⟨h.read_prefix, h.sent_prefix, h.delivered_le, h.slot, h.participant, h.stream, h.counts⟩
  · exact ⟨h.read_prefix, h.sent_prefix, h.delivered_le, h.slot, h.participant, h.stream, h.counts⟩

/-! ### Receiving -/

/-- Frames read back as the images that they hold: an image that is received from the beginning of a
stream of frames is the first of them. -/
theorem receive?_ok {b inbox : Inbox} {image : Image} {is : List Image}
    (hf : ∀ i ∈ is, (Message.image i).Framed) (hb : b.receiver.source.bytes <+: Image.frames is)
    (h : b.receive? = some (.ok image, inbox)) :
    ∃ i rest, is = i :: rest ∧ image = { i with participant := b.receiver.participant } ∧
      inbox.receiver.participant = b.receiver.participant ∧
      b.receiver.source.bytes = (Message.image i).frame ++ inbox.receiver.source.bytes := by
  unfold Inbox.receive? at h
  split at h
  · simp only [Option.some.injEq, Prod.mk.injEq] at h
    obtain ⟨himage, rfl⟩ := h
    unfold Receiver.image Receiver.accept at himage ⊢
    rw [Reading.image_run] at himage ⊢
    -- a stream that is empty or ends inside the first frame gives no image
    cases is with
    | nil =>
      obtain ⟨t, ht⟩ := Source.readMessage_nil (List.prefix_nil.1 hb)
      simp [ht] at himage
    | cons i rest =>
      rw [List.forall_mem_cons] at hf
      have hframes : Image.frames (i :: rest) = (Message.image i).frame ++ Image.frames rest := rfl
      rw [hframes] at hb
      by_cases hcut : ∃ u, b.receiver.source.bytes = (Message.image i).frame ++ u
      · obtain ⟨u, hu⟩ := hcut
        obtain ⟨t, ht, htb, -⟩ := Source.readMessage_frame hf.1 hu
        rw [ht] at himage ⊢
        cases hv : i.validate with
        | error e => simp [hv] at himage
        | ok v =>
          simp only [hv, Except.ok.injEq] at himage ⊢
          exact ⟨i, rest, rfl, himage.symm, trivial, by rw [hu, htb]⟩
      · rcases prefix_append_cases hb with hp | ⟨u, hu, -⟩
        · have hne : b.receiver.source.bytes ≠ (Message.image i).frame := fun he =>
            hcut ⟨[], by rw [he, List.append_nil]⟩
          obtain ⟨t, ht⟩ := Source.readMessage_short hf.1 hp hne
          simp [ht] at himage
        · exact absurd ⟨u, hu⟩ hcut
  · cases h

variable {p : Nat} {images read : List Image}

theorem Linked.receive (h : Linked images p a read) (hf : ∀ i ∈ images, (Message.image i).Framed)
    {image : Image} {inbox : Inbox} (hphase : a.worker.phase = .receiving)
    (hr : a.worker.inbox.receive? = some (.ok image, inbox)) :
    ∃ read', Linked images p
      { a with worker := { a.worker with inbox, phase := .storing image } } read' := by
  have hreads : a.worker.phase.Reads := by
    rw [hphase]
    trivial
  have hlen : read.length = a.worker.delivered := by
    have hcounts := h.counts
    rwa [hphase] at hcounts
  obtain ⟨rest, rfl⟩ := h.read_prefix
  have hbytes : a.worker.inbox.receiver.source.bytes <+: Image.frames rest := by
    have hs := h.sent_prefix
    rw [h.stream hreads, Image.frames_append, ← List.append_assoc] at hs
    exact (List.prefix_append_right_inj _).1 hs
  obtain ⟨i, rest, rfl, rfl, hpart, hsplit⟩ :=
    receive?_ok (fun i hi => hf i (List.mem_append_right _ hi)) hbytes hr
  refine ⟨read ++ [i], ⟨rest, by simp⟩, h.sent_prefix, ?_, ?_, ?_, ?_, ?_⟩
  · exact Nat.le_trans h.delivered_le (by simp)
  · show a.slot = slotAfter p (read ++ [i]) a.worker.delivered
    rw [h.slot, slotAfter, slotAfter, ← hlen, List.take_length, List.take_left]
  · exact fun _ => hpart.trans (h.participant hreads)
  · intro _
    show a.sent = _
    rw [h.stream hreads, hsplit, Image.frames_append]
    simp [Image.frames]
  · show ∃ hk : a.worker.delivered < (read ++ [i]).length, _
    refine ⟨by simp [hlen], by rw [List.length_append, hlen]; rfl, ?_⟩
    simp only [← hlen, List.getElem_concat_length, h.participant hreads]
    rfl

theorem Linked.store (h : Linked images p a read) {image : Image}
    (hphase : a.worker.phase = .storing image) :
    Linked images p { a with
      slot := some ⟨a.worker.delivered + 1, image⟩
      worker := { a.worker with delivered := a.worker.delivered + 1, phase := .arriving } } read := by
  have hreads : a.worker.phase.Reads := by
    rw [hphase]
    trivial
  have hcounts := h.counts
  rw [hphase] at hcounts
  obtain ⟨hk, hlen, rfl⟩ := hcounts
  exact ⟨h.read_prefix, h.sent_prefix, hk, (slotAfter_succ hk).symm, fun _ => h.participant hreads,
    fun _ => h.stream hreads, hlen⟩

theorem Linked.meet (h : Linked images p a read) {phase : WorkerPhase}
    (hphase : a.worker.phase = .arriving ∨ ∃ g, a.worker.phase = .waiting g)
    (hnext : phase = .receiving ∨ ∃ g, phase = .waiting g) :
    Linked images p { a with worker := { a.worker with phase } } read := by
  have hreads : a.worker.phase.Reads := by
    rcases hphase with hp | ⟨g, hp⟩ <;> rw [hp] <;> trivial
  have hlen : read.length = a.worker.delivered := by
    have hcounts := h.counts
    rcases hphase with hp | ⟨g, hp⟩ <;> rw [hp] at hcounts <;> exact hcounts
  refine ⟨h.read_prefix, h.sent_prefix, h.delivered_le, h.slot, fun _ => h.participant hreads,
    fun _ => h.stream hreads, ?_⟩
  rcases hnext with rfl | ⟨g, rfl⟩ <;> exact hlen

theorem Linked.deliver (h : Linked images p a read) {bytes : List UInt8}
    (hkeeps : a.sent ++ bytes <+: Session.greeting ++ Image.frames images) :
    Linked images p { a with
      sent := a.sent ++ bytes
      worker := { a.worker with inbox := a.worker.inbox.deliver bytes } } read := by
  refine ⟨h.read_prefix, hkeeps, h.delivered_le, h.slot, h.participant, ?_, h.counts⟩
  intro hreads
  show a.sent ++ bytes = _
  rw [h.stream hreads]
  simp [Inbox.deliver, Source.bytes]

theorem Linked.fail (h : Linked images p a read) {w : Worker} (hw : ¬ w.phase.Reads)
    (hd : w.delivered = a.worker.delivered) : Linked images p { a with worker := w } read := by
  refine ⟨h.read_prefix, h.sent_prefix, hd.le.trans h.delivered_le, ?_, fun hr => absurd hr hw,
    fun hr => absurd hr hw, ?_⟩
  · show a.slot = slotAfter p read w.delivered
    rw [hd]
    exact h.slot
  · show w.phase.Counts p read w.delivered
    cases hp : w.phase with
    | receiving | storing | arriving | waiting => exact absurd (by rw [hp]; trivial) hw
    | _ => trivial

/-! ### Every change keeps the invariant -/

variable {ps : Participants}

/-- The seat of participant `p`, which has received the commands `cs`, is consistent. -/
def Link (ps : Participants) (p : Nat) (a : Seat) (cs : List Command) : Prop :=
  (∃ w, a.proxy.Carries cs w) ∧ ∃ read, Linked (ps.images p cs) p a read

variable {cs : List Command}

theorem Link.received (h : Link ps p a cs) : receivedCommands a.proxy.sink.accepted = cs := by
  obtain ⟨⟨w, hc⟩, -⟩ := h
  exact hc.received

theorem Link.putProxy (h : Link ps p a cs) {q : Proxy} {ds : List Command} {w : List UInt8}
    (hq : q.Carries (cs ++ ds) w) : Link ps p (a.putProxy q) (cs ++ ds) := by
  obtain ⟨-, read, hl⟩ := h
  refine ⟨⟨w, by rwa [putProxy_proxy]⟩, read, ?_⟩
  exact (hl.mono (Session.images_prefix _ _ _ _)).putProxy q

/-- A change of a seat keeps it consistent. What the participant has received stays as it is, or grows
by the one command that was sent over the open connection. -/
theorem Link.step (h : Link ps p a cs) (hs : Step may (ps.behaviour p) a b) :
    Link ps p b cs ∨ ∃ c, a.proxy.isConnected ∧ may c ∧ Link ps p b (cs ++ [c]) := by
  obtain ⟨⟨w, hc⟩, read, hl⟩ := id h
  have hframed := Session.images_framed (ps.renderer p) (Session.greeted (ps.initial p)) cs
  cases hs with
  | stay => exact .inl h
  | @send c hmay =>
    rcases hc.send c with ⟨v, hq⟩ | ⟨hopen, hq⟩
    · rw [← List.append_nil cs] at hq ⊢
      exact .inl (h.putProxy hq)
    · exact .inr ⟨c, hopen, hmay, h.putProxy hq⟩
  | exit hmay =>
    rcases hc.exit with ⟨v, hq⟩ | ⟨hopen, hq⟩
    · rw [← List.append_nil cs] at hq ⊢
      exact .inl (h.putProxy hq)
    · exact .inr ⟨.exit, hopen, hmay, h.putProxy hq⟩
  | close =>
    have hq := hc.close
    rw [← List.append_nil cs] at hq ⊢
    exact .inl (h.putProxy hq)
  | shut =>
    exact .inl ⟨⟨w, hc⟩, read, hl.read_prefix, hl.sent_prefix, hl.delivered_le, hl.slot,
      hl.participant, hl.stream, hl.counts⟩
  -- a participant sends what a session answers to the commands that it has received
  | deliver hkeeps =>
    have hbytes := Session.respond_bytes (ps.renderer p) (ps.initial p) hc.framed hc.unfinished
      hc.accepted
    exact .inl ⟨⟨w, hc⟩, read, hl.deliver (hbytes ▸ hkeeps)⟩
  | hangUp failure =>
    exact .inl ⟨⟨w, hc⟩, read, hl.read_prefix, hl.sent_prefix, hl.delivered_le, hl.slot,
      hl.participant, hl.stream, hl.counts⟩
  | work hw =>
    refine .inl ⟨⟨w, hc⟩, ?_⟩
    cases hw with
    | receive hphase hr => exact hl.receive hframed hphase hr
    | store hphase => exact ⟨read, hl.store hphase⟩
    | meet hphase hnext => exact ⟨read, hl.meet hphase hnext⟩
    | fail hw hd _ => exact ⟨read, hl.fail hw hd⟩

/-- A slot is empty, or holds the participant's answer to the camera of its number. -/
theorem Link.slot_cases (h : Link ps p a cs) :
    (a.worker.delivered = 0 ∧ a.slot = none) ∨
      ∃ k i, a.worker.delivered = k + 1 ∧ (ps.images p cs)[k]? = some i ∧
        a.slot = some ⟨k + 1, i.attributed p⟩ := by
  obtain ⟨-, read, hl⟩ := h
  have hslot := hl.slot
  cases hd : a.worker.delivered with
  | zero =>
    rw [hd] at hslot
    exact .inl ⟨rfl, hslot⟩
  | succ k =>
    have hk : k < read.length := Nat.lt_of_succ_le (hd.ge.trans hl.delivered_le)
    refine .inr ⟨k, read[k], rfl, ?_, ?_⟩
    · obtain ⟨rest, hrest⟩ := hl.read_prefix
      rw [← hrest, List.getElem?_append_left hk, List.getElem?_eq_getElem hk]
    · rw [hslot, hd, slotAfter_succ hk]

/-- No more images are delivered than cameras were received. -/
theorem Link.delivered_le (h : Link ps p a cs) : a.worker.delivered ≤ Command.matrixCount cs := by
  obtain ⟨-, read, hl⟩ := h
  exact hl.delivered_le.trans
    (hl.read_prefix.length_le.trans (Session.images_length_le _ _ _))

end Seat
end SortLast
