import SortLast.Proofs.Participant.Service

/-!
# The log of a renderer

A renderer that is watched sees the calls that the commands ask for, in their order and none besides,
however the session ends. As long as the session goes on, it sees all of them.

* `Session.Follows`: a watched session that has made the calls for some commands.
* `Session.Follows.handle`, `Session.Follows.play`: one command more, and any number of them.
* `Session.log_isPrefix`: a log is a beginning of the calls asked for.
* `Session.getElem?_log`: a call is made if all calls before it have given images that were sent.
* `Session.Makes`: both, for one call and all renderers.
-/

namespace SortLast

namespace Session

variable {σ : Type} {r : Renderer σ} {renderer : σ} {sink : Sink} {source : Source}
  {cs ds : List Command} {c : Command} {s : Session (σ × List RenderCall)}

theorem calls_isPrefix (cs ds : List Command) : calls cs <+: calls (cs ++ ds) := by
  induction ds using List.reverseRecOn with
  | nil => rw [List.append_nil]
  | append_singleton ds d ih =>
    rw [← List.append_assoc, calls_concat]
    exact ih.trans (List.prefix_append _ _)

/-- Every camera update asks for one call. -/
theorem calls_length (cs : List Command) : (calls cs).length = Command.matrixCount cs := by
  induction cs using List.reverseRecOn with
  | nil => rfl
  | append_singleton cs c ih =>
    rw [calls_concat, List.length_append, ih, Command.matrixCount_append]
    cases c <;> rfl

/-- What begins a list stands at the same place in it. -/
theorem getElem?_of_isPrefix {α : Type} {xs ys : List α} (h : xs <+: ys) {n : Nat} {x : α}
    (hx : xs[n]? = some x) : ys[n]? = some x := by
  obtain ⟨more, rfl⟩ := h
  exact (List.getElem?_append_left (List.getElem?_eq_some_iff.1 hx).1).trans hx

/-- A call stands behind those of the camera updates before. -/
theorem getElem?_calls {before : List Command} {call : RenderCall} (hcall : call? before c = some call) :
    (calls (before ++ [c]))[Command.matrixCount before]? = some call := by
  rw [calls_concat, hcall, Option.toList_some, ← calls_length, List.getElem?_concat_length]

/-- A watched session that has made the calls for some commands. -/
structure Follows (cs : List Command) (s : Session (σ × List RenderCall)) : Prop where
  state : s.state = .applyAll .initial cs
  bricks : ∀ t, s.bricks.current t = Command.latestBricks t cs
  log : s.renderer.2.reverse = calls cs

theorem Follows.start (renderer : σ) (sink : Sink) :
    Follows [] ({ renderer := (renderer, []), sink } : Session (σ × List RenderCall)) where
  state := rfl
  bricks t := by
    rw [BrickStore.current]
    split <;> rfl
  log := rfl

/-- Whatever a renderer answers and whether or not its image is sent, a call is logged. -/
theorem answer_log (s : Session (σ × List RenderCall)) :
    (answer r.recording s).2.state = s.state ∧ (answer r.recording s).2.bricks = s.bricks ∧
      (answer r.recording s).2.renderer.2 =
        ⟨s.state, s.bricks.current s.state.currentFrame⟩ :: s.renderer.2 := by
  rw [answer, Renderer.recording_render]
  dsimp only
  rcases (r.render s.renderer.1 s.state (s.bricks.current s.state.currentFrame)).1 with
    (f | f) | image <;> exact ⟨rfl, rfl, rfl⟩

/-- A command other than the end of the session is followed, also if the session fails at it. -/
theorem Follows.handle (h : Follows cs s) (hc : c ≠ .exit) :
    Follows (cs ++ [c]) (handle r.recording s.counted c).2 := by
  cases hcall : call? cs c with
  | none =>
    obtain ⟨bricks, hhandle, hbricks⟩ := handle_of_quiet (r := r.recording) s.counted hc hcall
    rw [hhandle]
    refine ⟨?_, fun t => ?_, ?_⟩
    · rw [RenderState.applyAll_append, ← h.state]
      rfl
    · rw [Command.latestBricks_concat, ← h.bricks]
      exact hbricks t
    · rw [calls_concat, hcall, Option.toList_none, List.append_nil]
      exact h.log
  | some call =>
    cases c with
    | matrix p m =>
      cases hcall
      have hstate : s.state.apply (.matrix p m) = .applyAll .initial (cs ++ [.matrix p m]) := by
        rw [RenderState.applyAll_append, ← h.state]
        rfl
      obtain ⟨h1, h2, h3⟩ :=
        answer_log (r := r) { s.counted with state := s.state.apply (.matrix p m) }
      refine ⟨h1.trans hstate, fun t => ?_, ?_⟩
      · rw [Command.latestBricks_concat_of_not_bricks _ _ (by simp), ← h.bricks]
        exact congrArg (BrickStore.current · t) h2
      · rw [calls_concat, call?, Option.toList_some, ← h.log, ← List.reverse_cons, ← hstate,
          ← h.bricks]
        exact congrArg List.reverse h3
    | _ => cases hcall

/-- From the calls for some commands on, a session makes those for further commands, as far as it
goes. -/
theorem Follows.play (h : Follows cs s) (ending : NetError) (ds : List Command) :
    calls cs <+: (play r.recording s ending ds).2.renderer.2.reverse ∧
      (Session.play r.recording s ending ds).2.renderer.2.reverse <+: calls (cs ++ ds) := by
  induction ds generalizing cs s with
  | nil =>
    have hsame : (Session.play r.recording s ending []).2 = s := by
      rw [Session.play]
      split <;> rfl
    rw [hsame, h.log, List.append_nil]
    exact ⟨List.prefix_rfl, List.prefix_rfl⟩
  | cons c ds ih =>
    by_cases hc : c = .exit
    · subst hc
      rw [play_exit]
      show calls cs <+: s.renderer.2.reverse ∧ s.renderer.2.reverse <+: _
      rw [h.log]
      exact ⟨List.prefix_rfl, calls_isPrefix cs _⟩
    · have hnext := h.handle (r := r) hc
      have hcalls : cs ++ c :: ds = cs ++ [c] ++ ds := by simp
      rcases hh : Session.handle r.recording s.counted c with ⟨e | ⟨⟩, t⟩ <;> rw [hh] at hnext
      · rw [play_of_handle_error _ _ hc hh, hcalls, hnext.log]
        exact ⟨calls_isPrefix cs [c], calls_isPrefix (cs ++ [c]) ds⟩
      · rw [play_of_handle_ok _ _ hc hh, hcalls]
        exact ⟨(calls_isPrefix cs [c]).trans (ih hnext).1, (ih hnext).2⟩

/-- The next command is followed before anything can end the session. -/
theorem Follows.play_cons (h : Follows cs s) (ending : NetError) (hc : c ≠ .exit) (ds : List Command) :
    calls (cs ++ [c]) <+: (Session.play r.recording s ending (c :: ds)).2.renderer.2.reverse := by
  have hnext := h.handle (r := r) hc
  rcases hh : Session.handle r.recording s.counted c with ⟨e | ⟨⟩, t⟩ <;> rw [hh] at hnext
  · rw [play_of_handle_error _ _ hc hh, hnext.log]
  · rw [play_of_handle_ok _ _ hc hh]
    exact (hnext.play ending ds).1

/-- However a session ends, it has made a beginning of the calls that its commands ask for. -/
theorem log_isPrefix {ending : NetError} (hsource : source.commands = (cs, ending)) :
    log r renderer source sink <+: calls cs := by
  rw [log, run, hsource]
  exact ((Follows.start renderer sink).play ending cs).2

/-- A call is made if all calls before it have given images that were sent. -/
theorem getElem?_log {ending : NetError} {before rest : List Command} {call : RenderCall}
    {images : List Image} (hsource : source.commands = (before ++ c :: rest, ending))
    (hcall : call? before c = some call) (hsink : sink.Reliable) (hexit : .exit ∉ before)
    (hresults : r.results renderer (calls before) = images.map .ok)
    (hframed : ∀ i ∈ images, (Message.image i).Framed) :
    (log r renderer source sink)[Command.matrixCount before]? = some call := by
  have hc : c ≠ .exit := by
    rintro rfl
    cases hcall
  obtain ⟨s, hs, hplay⟩ := reach hsink ending hexit
    ((r.results_recording renderer [] _).trans hresults) hframed
  have hlog : s.renderer.2.reverse = calls before := by
    rw [hs.renderer, Renderer.after_recording, List.append_nil, List.reverse_reverse]
  have hmade := (Follows.mk hs.state hs.bricks hlog).play_cons (r := r) ending hc rest
  rw [log, run, hsource]
  dsimp only
  rw [hplay]
  exact getElem?_of_isPrefix hmade (getElem?_calls hcall)

/-- Whoever serves a stream, with any renderer: the call that follows the commands `before` can only be
`call`, and it is made if all calls before it have given images that were sent. -/
def Makes (source : Source) (before : List Command) (call : RenderCall) : Prop :=
  ∀ (σ : Type) (r : Renderer σ) (renderer : σ) (sink : Sink),
    (∀ other, (log r renderer source sink)[Command.matrixCount before]? = some other → other = call) ∧
    ∀ images : List Image, sink.Reliable → .exit ∉ before →
      r.results renderer (calls before) = images.map .ok →
      (∀ i ∈ images, (Message.image i).Framed) →
      (log r renderer source sink)[Command.matrixCount before]? = some call

theorem makes_of_call? {ending : NetError} {before rest : List Command} {call : RenderCall}
    (hsource : source.commands = (before ++ c :: rest, ending)) (hcall : call? before c = some call) :
    Makes source before call := by
  intro σ r renderer sink
  refine ⟨fun other hother => ?_, fun images hsink hexit hresults hframed =>
    getElem?_log hsource hcall hsink hexit hresults hframed⟩
  -- the log and the calls up to this one are both beginnings of the calls for the whole stream
  have hmade : (calls (before ++ c :: rest))[Command.matrixCount before]? = some call := by
    rw [← List.singleton_append, ← List.append_assoc]
    exact getElem?_of_isPrefix (calls_isPrefix _ rest) (getElem?_calls hcall)
  exact Option.some.inj ((getElem?_of_isPrefix (log_isPrefix hsource) hother).symm.trans hmade)

end Session
end SortLast
