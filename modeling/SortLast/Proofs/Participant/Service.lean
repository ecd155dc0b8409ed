import SortLast.Proofs.Participant.Calls
import SortLast.Proofs.Wire.Truncation

/-!
# What a session does

A session handles the commands that it has received as a whole, up to the end of the session. It makes
the calls that they ask for, sends the images in order under the numbers from one on, and counts what
it has done; the first call that fails ends it.

* `Session.Served`: the state of a session after commands that were all handled.
* `Served.quiet`, `Served.camera`, `Served.failure`: one command more.
* `Session.reach`: all commands up to some point, by induction.
* `Session.run_received`: a session over any part of a stream of commands.
-/

namespace SortLast

/-- The commands up to the first end of the session, which is the last of them. -/
def Command.untilExit (cs : List Command) : List Command := cs.take (cs.idxOf .exit + 1)

/-- Images under the numbers from one on. -/
def Image.numbered (images : List Image) : List Image :=
  images.mapIdx fun j i => i.withFrame (UInt64.ofNat (j + 1))

theorem Image.numbered_concat (images : List Image) (i : Image) :
    numbered (images ++ [i]) =
      numbered images ++ [i.withFrame (UInt64.ofNat (images.length + 1))] := List.mapIdx_concat

/-- The number of an image takes the same space whatever it is. -/
theorem Image.withFrame_framed {i : Image} (h : (Message.image i).Framed) (n : UInt64) :
    (Message.image (i.withFrame n)).Framed := h

/-- What a renderer's failure is for the session. -/
def SessionError.ofRender : RenderError → SessionError
  | .failure f => .render f
  | .fault f => .fault f

namespace Session

variable {σ : Type} {r : Renderer σ} {renderer : σ} {sink : Sink} {cs : List Command}
  {images : List Image} {s : Session σ}

/-- A session that has handled some commands, its calls having given `images`. -/
structure Served (r : Renderer σ) (renderer : σ) (sink : Sink) (cs : List Command)
    (images : List Image) (s : Session σ) : Prop where
  state : s.state = .applyAll .initial cs
  bricks : ∀ t, s.bricks.current t = Command.latestBricks t cs
  renderer : s.renderer = r.after renderer (calls cs)
  summary : s.summary = ⟨images.length, cs.length, false⟩
  reliable : s.sink.Reliable
  accepted : s.sink.accepted = sink.accepted ++ Image.frames (Image.numbered images)

theorem Served.start (r : Renderer σ) (renderer : σ) (hsink : sink.Reliable) :
    Served r renderer sink [] [] { renderer, sink } where
  state := rfl
  bricks t := by
    rw [BrickStore.current]
    split <;> rfl
  renderer := rfl
  summary := rfl
  reliable := hsink
  accepted := (List.append_nil _).symm

/-- A command that asks for no call only changes the parameters or the bricks. -/
theorem handle_of_quiet (s : Session σ) {c : Command} (hexit : c ≠ .exit) (hc : call? cs c = none) :
    ∃ bricks, handle r s c = (.ok (), { s with state := s.state.apply c, bricks }) ∧
      ∀ t, bricks.current t = if c.bricksOf t = [] then s.bricks.current t else c.bricksOf t := by
  cases c with
  | exit => exact absurd rfl hexit
  | matrix p m => cases hc
  | bricks bs => exact ⟨_, rfl, BrickStore.current_put s.bricks bs⟩
  | _ => exact ⟨s.bricks, rfl, fun _ => (if_pos rfl).symm⟩

theorem Served.quiet (h : Served r renderer sink cs images s) {c : Command} (hexit : c ≠ .exit)
    (hc : call? cs c = none) :
    ∃ t, handle r s.counted c = (.ok (), t) ∧ Served r renderer sink (cs ++ [c]) images t := by
  obtain ⟨bricks, hhandle, hbricks⟩ := handle_of_quiet (r := r) s.counted hexit hc
  refine ⟨_, hhandle, ?_, fun t => ?_, ?_, ?_, h.reliable, h.accepted⟩
  · rw [RenderState.applyAll_append, ← h.state]
    rfl
  · rw [Command.latestBricks_concat, ← h.bricks]
    exact hbricks t
  · rw [calls_concat, hc, Option.toList_none, List.append_nil]
    exact h.renderer
  · rw [List.length_append, List.length_singleton]
    simp only [counted, h.summary]

/-- A command that asks for a call is a camera update, which is answered with it. -/
theorem Served.handle_eq (h : Served r renderer sink cs images s) {c : Command} {call : RenderCall}
    (hc : call? cs c = some call) :
    c ≠ .exit ∧ (∀ bs, c ≠ .bricks bs) ∧ call.state = .applyAll .initial (cs ++ [c]) ∧
      handle r s.counted c = answer r { s.counted with state := call.state } ∧
      call.bricks = s.bricks.current call.state.currentFrame := by
  cases c with
  | matrix p m =>
    cases hc
    refine ⟨by simp, by simp, rfl, ?_, (h.bricks _).symm⟩
    rw [RenderState.applyAll_append, ← h.state]
    rfl
  | _ => cases hc

/-- A call that succeeds is answered with its image. -/
theorem Served.camera (h : Served r renderer sink cs images s) {c : Command} {call : RenderCall}
    {image : Image} (hc : call? cs c = some call)
    (hr : (r.render (r.after renderer (calls cs)) call.state call.bricks).1 = .ok image)
    (hf : (Message.image image).Framed) :
    ∃ t, handle r s.counted c = (.ok (), t) ∧
      Served r renderer sink (cs ++ [c]) (images ++ [image]) t := by
  obtain ⟨-, hbricks, hstate, hhandle, hcall⟩ := h.handle_eq hc
  have hcalls : calls (cs ++ [c]) = calls cs ++ [call] := by rw [calls_concat, hc, Option.toList_some]
  obtain ⟨u, hu, hrel⟩ := h.reliable.put
    (Image.withFrame_framed hf (UInt64.ofNat (s.summary.framesRendered + 1)))
  rw [hhandle, answer]
  dsimp only [counted]
  rw [← hcall, h.renderer]
  rcases hrender : r.render (r.after renderer (calls cs)) call.state call.bricks with ⟨x, t⟩
  rw [hrender] at hr
  obtain rfl : x = .ok image := hr
  dsimp only
  rw [hu]
  refine ⟨_, rfl, hstate, fun t => ?_, ?_, ?_, hrel, ?_⟩
  · rw [Command.latestBricks_concat_of_not_bricks _ _ hbricks]
    exact h.bricks t
  · rw [hcalls, Renderer.after_append, Renderer.after, List.foldl_cons, List.foldl_nil, hrender]
  · rw [h.summary, List.length_append, List.length_append, List.length_singleton, List.length_singleton]
  · rw [(Sink.put_ok hu).2, h.accepted, h.summary, Image.numbered_concat, Image.frames_append,
      List.append_assoc]
    simp [Image.frames]

/-- A call that fails ends the session before anything is sent. -/
theorem Served.failure (h : Served r renderer sink cs images s) {c : Command} {call : RenderCall}
    {e : RenderError} (hc : call? cs c = some call)
    (hr : (r.render (r.after renderer (calls cs)) call.state call.bricks).1 = .error e) :
    ∃ t, handle r s.counted c = (.error (.ofRender e), t) ∧
      t.renderer = r.after renderer (calls (cs ++ [c])) ∧ t.sink = s.sink := by
  obtain ⟨-, -, -, hhandle, hcall⟩ := h.handle_eq hc
  have hcalls : calls (cs ++ [c]) = calls cs ++ [call] := by rw [calls_concat, hc, Option.toList_some]
  rw [hhandle, answer, hcalls, Renderer.after_append, Renderer.after, List.foldl_cons, List.foldl_nil]
  dsimp only [counted]
  rw [← hcall, h.renderer]
  rcases hrender : r.render (r.after renderer (calls cs)) call.state call.bricks with ⟨x, t⟩
  rw [hrender] at hr
  obtain rfl : x = .error e := hr
  cases e <;> exact ⟨_, rfl, rfl, rfl⟩

/-! ### Runs -/

/-- The session that has handled commands whose calls all succeed, and goes on from there. -/
theorem reach (hsink : sink.Reliable) (ending : NetError) (hexit : .exit ∉ cs)
    (hresults : r.results renderer (calls cs) = images.map .ok)
    (hframed : ∀ i ∈ images, (Message.image i).Framed) :
    ∃ s, Served r renderer sink cs images s ∧
      ∀ rest, play r { renderer, sink } ending (cs ++ rest) = play r s ending rest := by
  induction cs using List.reverseRecOn generalizing images with
  | nil =>
    obtain rfl : images = [] := List.map_eq_nil_iff.1 hresults.symm
    exact ⟨_, .start r renderer hsink, fun _ => rfl⟩
  | append_singleton cs c ih =>
    rw [List.mem_append, List.mem_singleton, not_or] at hexit
    obtain ⟨hexit, hne⟩ := hexit
    rw [calls_concat, Renderer.results_append] at hresults
    cases hc : call? cs c with
    | none =>
      rw [hc, Option.toList_none, Renderer.results, List.append_nil] at hresults
      obtain ⟨s, hs, hplay⟩ := ih hexit hresults hframed
      obtain ⟨t, ht, hserved⟩ := hs.quiet (Ne.symm hne) hc
      refine ⟨t, hserved, fun rest => ?_⟩
      rw [List.append_assoc, hplay, List.singleton_append, play_of_handle_ok _ _ (Ne.symm hne) ht]
    | some call =>
      rw [hc, Option.toList_some] at hresults
      -- the last image belongs to this call, all others to the calls before it
      obtain ⟨before, last, rfl, hbefore, hlast⟩ := List.append_eq_map_iff.1 hresults
      obtain ⟨image, rfl⟩ : ∃ image, last = [image] := by
        have hlength := congrArg List.length hlast
        rw [List.length_map, Renderer.results_length, List.length_singleton] at hlength
        exact List.length_eq_one_iff.1 hlength
      rw [List.map_singleton, Renderer.results, Renderer.results, List.singleton_inj] at hlast
      obtain ⟨s, hs, hplay⟩ := ih hexit hbefore.symm fun i hi => hframed i (List.mem_append_left _ hi)
      obtain ⟨t, ht, hserved⟩ := hs.camera hc hlast.symm
        (hframed image (List.mem_append_right _ (List.mem_singleton_self image)))
      refine ⟨t, hserved, fun rest => ?_⟩
      rw [List.append_assoc, hplay, List.singleton_append, play_of_handle_ok _ _ (Ne.symm hne) ht]

end Session

theorem Command.untilExit_cases (cs : List Command) :
    (.exit ∉ cs ∧ untilExit cs = cs) ∨ ∃ before rest, cs = before ++ .exit :: rest ∧
      .exit ∉ before ∧ untilExit cs = before ++ [.exit] := by
  by_cases h : Command.exit ∈ cs
  · obtain ⟨before, rest, rfl, hb⟩ := List.eq_append_cons_of_mem h
    refine .inr ⟨before, rest, rfl, hb, ?_⟩
    have hidx : (before ++ Command.exit :: rest).idxOf .exit = before.length := by
      rw [List.idxOf_append_of_notMem hb, List.idxOf_cons_self, Nat.add_zero]
    rw [untilExit, hidx, List.take_append, List.take_of_length_le (Nat.le_succ _),
      Nat.add_sub_cancel_left]
    rfl
  · refine .inl ⟨h, ?_⟩
    rw [untilExit, List.idxOf_eq_length_iff.2 h]
    exact List.take_of_length_le (Nat.le_succ _)

/-- Only the last of them can be the end of the session. -/
theorem Command.exists_of_untilExit {cs before rest : List Command} {c : Command}
    (h : untilExit cs = before ++ c :: rest) :
    .exit ∉ before ∧ ∃ later, cs = before ++ c :: later := by
  constructor
  · rcases untilExit_cases cs with ⟨hexit, heq⟩ | ⟨b, -, -, hexit, heq⟩
    · rw [heq] at h
      rw [h, List.mem_append, not_or] at hexit
      exact hexit.1
    · rw [heq] at h
      have hlength := congrArg List.length h
      simp only [List.length_append, List.length_cons, List.length_nil] at hlength
      have hbefore : before <+: b :=
        List.prefix_of_prefix_length_le ⟨c :: rest, h.symm⟩ (List.prefix_append _ _) (by omega)
      exact fun hmem => hexit (hbefore.subset hmem)
  · obtain ⟨later, hlater⟩ := List.take_prefix (cs.idxOf .exit + 1) cs
    rw [← untilExit, h] at hlater
    exact ⟨rest ++ later, by rw [← hlater, List.append_assoc, List.cons_append]⟩

namespace Session

variable {σ : Type} {r : Renderer σ} {renderer : σ} {sink : Sink} {source : Source}
  {cs : List Command} {images : List Image}

theorem run_eq (hsource : source.commands = (cs, .closed)) :
    run r renderer source sink = play r { renderer, sink } .closed cs := by
  rw [run, hsource]

theorem play_exit (s : Session σ) (ending : NetError) :
    play r s ending (.exit :: cs) =
      (.ok ⟨s.summary.framesRendered, s.summary.commands + 1, true⟩,
        { s with summary := ⟨s.summary.framesRendered, s.summary.commands + 1, true⟩ }) := by
  rw [play, if_pos rfl]

/-- A session whose calls all succeed ends without an error. -/
theorem run_of_success (hsink : sink.Reliable) (hsource : source.commands = (cs, .closed))
    (hresults : r.results renderer (calls (Command.untilExit cs)) = images.map .ok)
    (hframed : ∀ i ∈ images, (Message.image i).Framed) :
    ∃ t, run r renderer source sink =
        (.ok ⟨images.length, (Command.untilExit cs).length, decide (.exit ∈ Command.untilExit cs)⟩, t) ∧
      t.renderer = r.after renderer (calls (Command.untilExit cs)) ∧
      t.sink.accepted = sink.accepted ++ Image.frames (Image.numbered images) := by
  rw [run_eq hsource]
  rcases Command.untilExit_cases cs with ⟨hexit, heq⟩ | ⟨before, rest, rfl, hexit, heq⟩
  · rw [heq] at hresults ⊢
    obtain ⟨s, hs, hplay⟩ := reach hsink .closed hexit hresults hframed
    refine ⟨s, ?_, hs.renderer, hs.accepted⟩
    have hend := hplay []
    rw [List.append_nil] at hend
    rw [hend, decide_eq_false hexit, ← hs.summary]
    rfl
  · have hcalls : calls (before ++ [.exit]) = calls before := by
      rw [calls_concat]
      exact List.append_nil _
    rw [heq, hcalls] at hresults ⊢
    obtain ⟨s, hs, hplay⟩ := reach hsink .closed hexit hresults hframed
    refine ⟨{ s with summary := ⟨images.length, before.length + 1, true⟩ }, ?_, hs.renderer,
      hs.accepted⟩
    rw [hplay, play_exit, hs.summary, List.length_append, List.length_singleton,
      decide_eq_true (List.mem_append_right _ (List.mem_singleton_self _))]

/-- The first call that fails ends a session. -/
theorem run_of_failure (hsink : sink.Reliable) (hsource : source.commands = (cs, .closed))
    {e : RenderError} {more : List (Except RenderError Image)}
    (hresults : r.results renderer (calls (Command.untilExit cs)) =
      images.map .ok ++ .error e :: more)
    (hframed : ∀ i ∈ images, (Message.image i).Framed) :
    ∃ t, run r renderer source sink = (.error (.ofRender e), t) ∧
      t.renderer = r.after renderer ((calls (Command.untilExit cs)).take (images.length + 1)) ∧
      t.sink.accepted = sink.accepted ++ Image.frames (Image.numbered images) := by
  rw [run_eq hsource]
  obtain ⟨done, call, later, hcalls, hdone, hcall⟩ := r.exists_of_results_eq hresults
  obtain ⟨before, c, rest, hread, rfl, hc⟩ := exists_of_calls_eq hcalls
  obtain ⟨hexit, rest', rfl⟩ := Command.exists_of_untilExit hread
  have hlength : images.length = (calls before).length := by
    rw [← r.results_length renderer, hdone, List.length_map]
  have htake : (calls (Command.untilExit (before ++ c :: rest'))).take (images.length + 1) =
      calls (before ++ [c]) := by
    rw [hcalls, calls_concat, hc, hlength, List.take_length_add_append]
    rfl
  obtain ⟨s, hs, hplay⟩ := reach hsink .closed hexit hdone hframed
  obtain ⟨t, ht, hrenderer, hsent⟩ := hs.failure hc hcall
  refine ⟨t, ?_, by rw [hrenderer, htake], by rw [hsent, hs.accepted]⟩
  rw [hplay, play_of_handle_error _ _ (hs.handle_eq hc).1 ht]

/-- Between two states of a sink, it has accepted exactly these images, under the numbers from one
on. -/
def Sent (before after : Sink) (images : List Image) : Prop :=
  ∃ bytes, after.accepted = before.accepted ++ bytes ∧
    (Source.ofBytes bytes).messages = ((Image.numbered images).map .image, .closed)

theorem sent_of_accepted {before after : Sink} (hframed : ∀ i ∈ images, (Message.image i).Framed)
    (h : after.accepted = before.accepted ++ Image.frames (Image.numbered images)) :
    Sent before after images := by
  refine ⟨_, h, ?_⟩
  have hmessages : ∀ m ∈ (Image.numbered images).map Message.image, m.Framed := by
    intro m hm
    obtain ⟨i, hi, rfl⟩ := List.mem_map.1 hm
    obtain ⟨j, hj, rfl⟩ := List.mem_mapIdx.1 hi
    exact Image.withFrame_framed (hframed _ (List.getElem_mem hj)) _
  have hbytes : (Source.ofBytes (Image.frames (Image.numbered images))).bytes =
      ((Image.numbered images).map Message.image).flatMap Message.frame := by
    rw [Source.bytes_ofBytes, Image.frames, List.flatMap_map]
  exact Source.messages_eq hmessages hbytes

/-- The calls that a session makes of its renderer. -/
def log (r : Renderer σ) (renderer : σ) (source : Source) (sink : Sink) : List RenderCall :=
  (run r.recording (renderer, []) source sink).2.renderer.2.reverse

theorem log_eq {t : Except SessionError Summary × Session (σ × List RenderCall)}
    {cs : List RenderCall} (h : run r.recording (renderer, []) source sink = t)
    (ht : t.2.renderer = r.recording.after (renderer, []) cs) : log r renderer source sink = cs := by
  rw [log, h, ht, Renderer.after_recording, List.append_nil, List.reverse_reverse]

/-- Whoever receives a part of a stream of commands, in any chunks, serves the commands that lie in it
as a whole, up to the first end of the session. Their calls are made in order. If all of them give
images, then these are sent under the numbers from one on, and everything is counted; if one fails,
then it is the last one made, and exactly the images before it are sent. -/
theorem run_received (r : Renderer σ) (renderer : σ) {writer writer' : Sink} {cs : List Command}
    {stream : List UInt8} {chunks : List (List UInt8)} (hsink : sink.Reliable)
    (hput : writer.putCommands cs = (.ok (), writer'))
    (hstream : writer'.accepted = writer.accepted ++ stream) (hcut : chunks.flatten <+: stream) :
    ∃ k, Command.WholeIn cs chunks.flatten.length k ∧
      let read := Command.untilExit (cs.take k)
      let source : Source := ⟨chunks, none⟩
      let ended := run r renderer source sink
      (∀ images, r.results renderer (calls read) = images.map .ok →
        (∀ i ∈ images, (Message.image i).Framed) →
          ended.1 = .ok ⟨(calls read).length, read.length, decide (.exit ∈ read)⟩ ∧
            log r renderer source sink = calls read ∧ Sent sink ended.2.sink images) ∧
      ∀ images e more, r.results renderer (calls read) = images.map .ok ++ .error e :: more →
        (∀ i ∈ images, (Message.image i).Framed) →
          ended.1 = .error (.ofRender e) ∧
            log r renderer source sink = (calls read).take (images.length + 1) ∧
            Sent sink ended.2.sink images := by
  obtain ⟨-, k, u, hk, hwhole, hbytes, hu⟩ := Sink.exists_wholeIn hput hstream hcut
  have hsource : (Source.mk chunks none).commands = (cs.take k, .closed) :=
    Source.commands_eq hwhole hu hbytes
  refine ⟨k, hk, fun images hresults hframed => ?_, fun images e more hresults hframed => ?_⟩
  · have hlength : images.length = (calls (Command.untilExit (cs.take k))).length := by
      rw [← r.results_length renderer, hresults, List.length_map]
    obtain ⟨t, ht, -, hsent⟩ := run_of_success hsink hsource hresults hframed
    obtain ⟨w, hw, hlog, -⟩ := run_of_success hsink hsource
      ((r.results_recording renderer [] _).trans hresults) hframed
    rw [ht, hlength]
    exact ⟨rfl, log_eq hw hlog, sent_of_accepted hframed hsent⟩
  · obtain ⟨t, ht, -, hsent⟩ := run_of_failure hsink hsource hresults hframed
    obtain ⟨w, hw, hlog, -⟩ := run_of_failure hsink hsource
      ((r.results_recording renderer [] _).trans hresults) hframed
    rw [ht]
    exact ⟨rfl, log_eq hw hlog, sent_of_accepted hframed hsent⟩

/-- A renderer whose images cover nothing and carry the number of the bricks they are made of. -/
def countingRenderer : Renderer Unit where
  render _ _ bricks := (.ok (.empty (UInt64.ofNat bricks.length)), ())

/-- Of two bricks, the one of the current time step is rendered at the one camera update that comes
before the end of the session; another camera update behind it is cut and does not count. -/
theorem run_received_bricks :
    let bricks : List Brick := [⟨⟨.zero, .zero⟩, 0, 0⟩, ⟨⟨.zero, .zero⟩, 0, 1⟩]
    let state := RenderState.initial.applyAll [.currentFrame 1, .matrix .identity .identity]
    ∃ source : Source, source.bytes.length = 300 ∧
      let ended := run countingRenderer () source .unlimited
      ended.1 = .ok ⟨1, 4, true⟩ ∧
        log countingRenderer () source .unlimited = [⟨state, bricks.drop 1⟩] ∧
        Sent .unlimited ended.2.sink [.empty 1] := by
  intro bricks state
  have hcs : ∀ c ∈ [Command.bricks bricks, .currentFrame 1, .matrix .identity .identity, .exit,
      .matrix .identity .identity], c.Framed := by decide +kernel
  obtain ⟨writer', hput, -⟩ := Sink.unlimited_reliable.putCommands hcs
  obtain ⟨stream, hstream⟩ : ∃ stream, writer'.accepted = Sink.unlimited.accepted ++ stream :=
    ⟨_, (Sink.putCommands_ok hput).2⟩
  have hcut : [stream.take 300].flatten <+: stream := by
    rw [List.flatten_singleton]
    exact List.take_prefix 300 stream
  obtain ⟨k, ⟨hk, hwhole⟩, hok, -⟩ :=
    run_received countingRenderer () Sink.unlimited_reliable hput hstream hcut
  have hlength : [stream.take 300].flatten.length = 300 := by
    rw [List.flatten_singleton, List.length_take, ← List.append_cancel_left
      ((Sink.putCommands_ok hput).2.symm.trans hstream)]
    decide +kernel
  rw [hlength] at hwhole
  have h4 : 4 ≤ k := (hwhole 4 (by decide)).1 (by decide +kernel)
  have h5 : ¬ 5 ≤ k := mt (hwhole 5 (by decide)).2 (by decide +kernel)
  obtain rfl : k = 4 := by omega
  exact ⟨⟨[stream.take 300], none⟩, hlength, hok [.empty 1] rfl (by decide)⟩

end Session
end SortLast
