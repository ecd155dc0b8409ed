import SortLast.Proofs.Wire.Sink
import SortLast.Cluster.Network

/-!
# What a session answers

A session answers every camera with at most one image, in order, and sends nothing else. So the
images that it has sent are a function of the commands that it has read, and more commands only add
images at the end.

* `Session.next?`, `Session.image?`: where a command leads, and the image it is answered with.
* `Session.images`: the images for a list of commands.
* `Session.images_concat`, `Session.images_length_le`: one command more adds at most one image, and
  only a camera does.
* `Session.respond_bytes`: what a participant has sent, given what it has received.
-/

namespace SortLast

/-- True for a camera update. -/
def Command.isMatrix : Command → Bool
  | .matrix .. => true
  | _ => false

/-- The number of camera updates in a list of commands. -/
def Command.matrixCount (cs : List Command) : Nat := cs.countP isMatrix

theorem Command.matrixCount_append (cs ds : List Command) :
    matrixCount (cs ++ ds) = matrixCount cs + matrixCount ds :=
  List.countP_append

/-- The bytes of images on a stream. -/
def Image.frames (images : List Image) : List UInt8 := images.flatMap fun i => (Message.image i).frame

theorem Image.frames_append (as bs : List Image) : frames (as ++ bs) = frames as ++ frames bs :=
  List.flatMap_append

namespace Session

variable {σ : Type} (r : Renderer σ)

/-- The session with one command more on its count. -/
def counted (s : Session σ) : Session σ :=
  { s with summary := { s.summary with commands := s.summary.commands + 1 } }

/-- The session after a command, if it goes on. -/
def next? (s : Session σ) (c : Command) : Option (Session σ) :=
  if c = .exit then none
  else match handle r s.counted c with
    | (.ok (), t) => some t
    | (.error _, _) => none

/-- The image that a command is answered with: a camera update is, if rendering succeeds and a frame
can hold the image. -/
def image? (s : Session σ) : Command → Option Image
  | .matrix p m =>
    let state := s.state.apply (.matrix p m)
    match r.render s.renderer state (s.bricks.current state.currentFrame) with
    | (.ok image, _) =>
      let image := image.withFrame (UInt64.ofNat (s.summary.framesRendered + 1))
      if (Message.image image).Framed then some image else none
    | (.error _, _) => none
  | _ => none

/-- The session after a list of commands, if it is not over. -/
def after? (s : Session σ) (cs : List Command) : Option (Session σ) := cs.foldlM (next? r) s

/-- The images that a list of commands is answered with. -/
def images (s : Session σ) : List Command → List Image
  | [] => []
  | c :: cs => (image? r s c).toList ++ ((next? r s c).map fun t => images t cs).getD []

/-! ### Images and commands -/

theorem images_append (s : Session σ) (cs ds : List Command) :
    images r s (cs ++ ds) = images r s cs ++ ((after? r s cs).map fun t => images r t ds).getD [] := by
  induction cs generalizing s with
  | nil => rfl
  | cons c cs ih =>
    rw [List.cons_append, images, images, List.append_assoc, after?, List.foldlM_cons]
    cases next? r s c with
    | none => rfl
    | some t => exact congrArg _ (ih t)

/-- One command more is answered after all others. -/
theorem images_concat (s : Session σ) (cs : List Command) (c : Command) :
    images r s (cs ++ [c]) = images r s cs ++ ((after? r s cs).bind fun t => image? r t c).toList := by
  rw [images_append]
  cases after? r s cs with
  | none => rfl
  | some t =>
    rw [Option.map_some, Option.getD_some, Option.bind_some, images]
    cases next? r t c <;> exact congrArg _ (List.append_nil _)

theorem images_prefix (s : Session σ) (cs ds : List Command) :
    images r s cs <+: images r s (cs ++ ds) := by
  rw [images_append]
  exact List.prefix_append _ _

/-- Only a camera update is answered. -/
theorem image?_length_le (s : Session σ) (c : Command) :
    (image? r s c).toList.length ≤ Command.matrixCount [c] := by
  cases c with
  | matrix p m =>
    show _ ≤ 1
    cases image? r s (.matrix p m) with
    | none => exact Nat.zero_le _
    | some i => exact Nat.le_refl _
  | _ => exact Nat.zero_le _

theorem images_length_le (s : Session σ) (cs : List Command) :
    (images r s cs).length ≤ Command.matrixCount cs := by
  induction cs generalizing s with
  | nil => exact Nat.le_refl _
  | cons c cs ih =>
    have hc := image?_length_le r s c
    have hsum := Command.matrixCount_append [c] cs
    rw [List.singleton_append] at hsum
    rw [images, List.length_append, hsum]
    cases next? r s c with
    | none => exact Nat.le_trans hc (Nat.le_add_right _ _)
    | some t => exact Nat.add_le_add hc (ih t)

theorem image?_framed {s : Session σ} {c : Command} {i : Image} (h : image? r s c = some i) :
    (Message.image i).Framed := by
  cases c with
  | matrix p m =>
    simp only [image?] at h
    split at h
    · split at h
      · rename_i hf
        cases h
        exact hf
      · cases h
    · cases h
  | _ => cases h

theorem images_framed (s : Session σ) (cs : List Command) :
    ∀ i ∈ images r s cs, (Message.image i).Framed := by
  induction cs generalizing s with
  | nil => simp [images]
  | cons c cs ih =>
    intro i hi
    rw [images, List.mem_append] at hi
    rcases hi with hi | hi
    · exact image?_framed r (Option.mem_toList.1 hi)
    · cases hn : next? r s c with
      | none => simp [hn] at hi
      | some t => exact ih t i (by simpa [hn] using hi)

/-! ### What is sent -/

/-- Over a sink that never fails, a camera is answered with its image exactly if the session goes on. -/
theorem handle_sink {s : Session σ} (hs : s.sink.Reliable) (c : Command) :
    (handle r s c).2.sink.Reliable ∧
      (handle r s c).2.sink.accepted = s.sink.accepted ++ Image.frames (image? r s c).toList := by
  have hsame : s.sink.accepted = s.sink.accepted ++ Image.frames [] := (List.append_nil _).symm
  cases c with
  | matrix p m =>
    simp only [handle, answer, image?]
    split
    · rename_i hr
      rw [hr]
      exact ⟨hs, hsame⟩
    · rename_i hr
      rw [hr]
      exact ⟨hs, hsame⟩
    · rename_i image t hr
      rw [hr]
      simp only
      by_cases hf : (Message.image (image.withFrame (UInt64.ofNat (s.summary.framesRendered + 1)))).Framed
      · obtain ⟨u, hu, hrel⟩ := hs.put hf
        rw [hu, if_pos hf]
        refine ⟨hrel, (Sink.put_ok hu).2.trans ?_⟩
        simp [Image.frames]
      -- an image too large for a frame ends the session before any byte of it is sent
      · rw [Sink.put_of_not_framed hf, if_neg hf]
        exact ⟨hs, hsame⟩
  | _ => exact ⟨hs, hsame⟩

theorem image?_counted (s : Session σ) (c : Command) : image? r s.counted c = image? r s c := by
  cases c <;> rfl

/-- A session puts exactly its images on a sink that never fails. -/
theorem play_accepted {s : Session σ} (hs : s.sink.Reliable) (ending : NetError) (cs : List Command) :
    (play r s ending cs).2.sink.accepted = s.sink.accepted ++ Image.frames (images r s cs) := by
  induction cs generalizing s with
  | nil =>
    rw [images, Image.frames, List.flatMap_nil, List.append_nil, play]
    split <;> rfl
  | cons c cs ih =>
    obtain ⟨hrel, hacc⟩ := handle_sink r (s := s.counted) hs c
    rw [image?_counted] at hacc
    rw [play, images, next?]
    by_cases hc : c = .exit
    · subst hc
      simp [image?, Image.frames]
    · rw [if_neg hc, if_neg hc]
      change (match handle r s.counted c with
        | (.ok (), t) => play r t ending cs
        | (.error e, t) => (.error e, t)).2.sink.accepted = _
      rcases hh : handle r s.counted c with ⟨_ | _, t⟩
      · rw [hh] at hacc
        rw [Option.map_none, Option.getD_none, List.append_nil]
        exact hacc
      · rw [hh] at hacc hrel
        rw [Option.map_some, Option.getD_some, Image.frames_append, ← List.append_assoc]
        rw [show s.sink.accepted ++ Image.frames (image? r s c).toList = t.sink.accepted from hacc.symm]
        exact ih hrel

/-- The session of a participant that has exchanged versions. -/
def greeted (renderer : σ) : Session σ :=
  { renderer, sink := (Sink.unlimited.put (.hello protocolVersion)).2 }

/-- The bytes with which either side opens a connection. -/
def greeting : List UInt8 := (Message.hello protocolVersion).frame

theorem hello_framed (v : UInt8) : (Message.hello v).Framed := of_decide_eq_true rfl

theorem greeted_sink (renderer : σ) :
    Sink.unlimited.put (.hello protocolVersion) = (.ok (), (greeted renderer).sink) ∧
      (greeted renderer).sink.Reliable ∧ (greeted renderer).sink.accepted = greeting := by
  obtain ⟨t, ht, hrel⟩ := Sink.unlimited_reliable.put (hello_framed protocolVersion)
  have hsink : (greeted renderer).sink = t := by rw [greeted, ht]
  rw [hsink]
  refine ⟨ht, hrel, (Sink.put_ok ht).2.trans ?_⟩
  rfl

end Session

/-- Reading a greeting leaves what follows it. -/
theorem Reading.hello_run {s : Source} {b : List UInt8} (h : s.bytes = Session.greeting ++ b) :
    ∃ t, Reading.hello s = (.ok protocolVersion, t) ∧ t.bytes = b ∧ t.failure = s.failure := by
  obtain ⟨t, ht, hb, hf⟩ := Source.readMessage_frame (Session.hello_framed protocolVersion) h
  exact ⟨t, by rw [Reading.hello, Reading.expect_run, ht], hb, hf⟩

namespace Session

variable {σ : Type} (r : Renderer σ)

/-- A participant that has received a greeting, commands, and the beginning of another one, has sent
its own greeting and the images for the commands. -/
theorem respond_bytes (renderer : σ) {received w : List UInt8} {cs : List Command}
    (hcs : ∀ c ∈ cs, c.Framed) (hw : Unfinished w)
    (h : received = greeting ++ cs.flatMap Command.bytes ++ w) :
    ((Peer.ofRenderer r renderer).respond received).bytes =
      greeting ++ Image.frames (images r (greeted renderer) cs) := by
  rw [List.append_assoc] at h
  obtain ⟨t, ht, htb, htf⟩ := Reading.hello_run (s := .ofBytes received) (by rw [Source.bytes_ofBytes, h])
  obtain ⟨hput, hrel, hacc⟩ := greeted_sink renderer
  have hcommands := Source.commands_eq hcs hw htb
  show (serve r renderer (.ofBytes received) .unlimited).2.sink.accepted = _
  rw [serve, ht]
  simp only [hput, ne_eq, not_true_eq_false, if_false]
  rw [run, hcommands]
  exact (play_accepted r hrel _ cs).trans (by rw [hacc])

end Session
end SortLast
