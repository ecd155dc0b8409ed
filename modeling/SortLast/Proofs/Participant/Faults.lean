import SortLast.Proofs.Compositing.Placement
import SortLast.Proofs.Participant.Service
import SortLast.Proofs.Transfer.Lookup

/-!
# Sessions that fault

Which commands stop the computation of a participant with a flat renderer. Only two things can: a
transfer function that has no colour for some sample of its average opacity, and an image that is
larger than half the address space.

* `RenderCall.Doomed`: the calls that have no image; `FlatRenderer.faults_image` says so.
* `Command.Harmless`: commands that cannot make a call doomed.
* `Session.play_faulted`, `Session.play_harmless`: what holds along a session.
* `Session.run_faulted`: a session faults exactly if it makes a doomed call, and never while all
  commands are harmless.
-/

namespace SortLast

/-! ### Images -/

/-- A box covers the whole window or a clipped rectangle with some pixels. -/
theorem View.project_cases {v : View} {bounds : Box} {width height : UInt32} {rect : Rect}
    (h : v.project bounds width height = some rect) :
    rect = .full width height ∨ ¬ rect.isEmpty ∧ ∃ r : Rect, rect = r.clip width height := by
  unfold project at h
  dsimp only at h
  split at h
  · cases h
    exact .inl rfl
  · split at h
    · cases h
    · split at h
      · cases h
      · rename_i hempty
        cases h
        exact .inr ⟨hempty, _, rfl⟩

/-- The pixels of a box are pixels of the window. -/
theorem View.project_liesIn {v : View} {bounds : Box} {width height : UInt32} {rect : Rect}
    (h : v.project bounds width height = some rect) : rect.LiesIn width.toNat height.toNat := by
  rcases project_cases h with rfl | ⟨-, r, rfl⟩
  · exact Rect.full_liesIn width height
  · exact r.clip_liesIn width height

/-- Some sample of the average opacity has no colour. -/
def RenderState.LacksColour (state : RenderState) : Prop :=
  ∃ t, state.transferFunction = some t ∧
    ∃ i < TransferFunction.opacitySamples, t.Misses (t.quantise (TransferFunction.sample i))

/-- The number of pixels of a window. -/
def FlatRenderer.windowArea (width height : Int32) : Nat := (side width).toNat * (side height).toNat

/-- There is no image for a call: its bricks are in the window, but some sample of the average opacity
has no colour, or the image is too large for any memory. -/
def RenderCall.Doomed (call : RenderCall) : Prop :=
  ∃ first rest rect, call.bricks = first :: rest ∧
    call.state.view.project (FlatRenderer.boundsOf first rest) (FlatRenderer.side call.state.width)
      (FlatRenderer.side call.state.height) = some rect ∧
    (call.state.LacksColour ∨ maxBufferBytes < rect.area * 4)

theorem RenderCall.doomed_cons {state : RenderState} {first : Brick} {rest : List Brick} :
    Doomed ⟨state, first :: rest⟩ ↔ ∃ rect,
      state.view.project (FlatRenderer.boundsOf first rest) (FlatRenderer.side state.width)
        (FlatRenderer.side state.height) = some rect ∧
      (state.LacksColour ∨ maxBufferBytes < rect.area * 4) := by
  constructor
  · rintro ⟨_, _, rect, ⟨⟩, h⟩
    exact ⟨rect, h⟩
  · rintro ⟨rect, h⟩
    exact ⟨first, rest, rect, rfl, h⟩

theorem Image.faults_filled {participant : UInt64} {rect : Rect} {p : Pixel} :
    Faults (filled participant rect p) ↔ maxBufferBytes < rect.area * 4 := by
  rw [filled, faults_bind]
  simp only [not_faults_pure, and_false, exists_false, or_false]
  rw [checkCapacity]
  split
  · exact iff_of_true (faults_error _) ‹_›
  · exact iff_of_false (not_faults_ok _) ‹_›

namespace FlatRenderer

variable (r : FlatRenderer) (state : RenderState)

theorem faults_premultiplied : Faults (r.premultiplied state) ↔ state.LacksColour := by
  rw [premultiplied, faults_bind]
  simp only [not_faults_pure, and_false, exists_false, or_false]
  rw [opacity, RenderState.LacksColour]
  rcases state.transferFunction with - | t
  · exact iff_of_false (not_faults_ok _) (by rintro ⟨t, ⟨⟩, -⟩)
  · simp only [Option.some.injEq, exists_eq_left']
    rw [← TransferFunction.faults_meanOpacity]
    split
    · rename_i hempty
      refine iff_of_false (not_faults_ok _) fun h => ?_
      obtain ⟨i, -, hm⟩ := TransferFunction.faults_meanOpacity.1 h
      exact hm.nonempty (List.isEmpty_iff.1 hempty)
    · rfl

/-- The renderer has no image for a call exactly if the call is doomed, whatever its colour. -/
theorem faults_image (bricks : List Brick) :
    Faults (r.image state bricks) ↔ RenderCall.Doomed ⟨state, bricks⟩ := by
  unfold image
  rcases bricks with - | ⟨first, rest⟩
  · exact iff_of_false (not_faults_ok _) (by rintro ⟨_, _, _, ⟨⟩, -⟩)
  rw [RenderCall.doomed_cons]
  dsimp only
  split
  · rename_i hnone
    exact iff_of_false (not_faults_pure _) (by rintro ⟨_, h, -⟩; rw [hnone] at h; cases h)
  · rename_i rect hsome
    simp only [hsome, Option.some.injEq, exists_eq_left']
    have hdone : ∀ i j : Image, ¬ Faults (if r.depth then pure i else pure j) := fun i j => by
      split <;> exact not_faults_pure _
    rw [← faults_premultiplied r]
    simp only [faults_bind, Image.faults_filled, hdone, and_false, exists_false, or_false]
    rcases r.premultiplied state with f | p
    · exact iff_of_true (.inl (faults_error f)) (.inl (faults_error f))
    · simp only [not_faults_ok, false_or, Except.ok.injEq, exists_eq_left']

/-- What the renderer answers in a session. -/
theorem render_fault_iff (bricks : List Brick) :
    (∃ f, (r.renderer.render () state bricks).1 = .error (.fault f)) ↔
      RenderCall.Doomed ⟨state, bricks⟩ := by
  rw [← r.faults_image]
  show (∃ f, (r.image state bricks).mapError RenderError.fault = .error (.fault f)) ↔ _
  rcases r.image state bricks with f | i
  · exact iff_of_true ⟨f, rfl⟩ (faults_error f)
  · exact iff_of_false (by rintro ⟨f, ⟨⟩⟩) (not_faults_ok i)

end FlatRenderer

/-! ### Harmless commands -/

/-- The command neither opens a window whose image no memory can hold, nor brings a transfer function
whose first point is not a number. -/
def Command.Harmless : Command → Prop
  | .resize width height => FlatRenderer.windowArea width height * 4 ≤ maxBufferBytes
  | .transferFunction t => ∀ p ∈ t.points.head?, p.value.isNaN = false
  | _ => True

/-- The same of the parameters that commands have set. -/
structure RenderState.Harmless (state : RenderState) : Prop where
  window : FlatRenderer.windowArea state.width state.height * 4 ≤ maxBufferBytes
  points : ∀ t, state.transferFunction = some t → ∀ p ∈ t.points.head?, p.value.isNaN = false

namespace RenderState

theorem initial_harmless : initial.Harmless where
  window := by decide
  points t h := by cases h

theorem Harmless.apply {state : RenderState} {c : Command} (h : state.Harmless) (hc : c.Harmless) :
    (state.apply c).Harmless := by
  cases c with
  | resize width height => exact ⟨hc, h.points⟩
  | transferFunction t =>
    refine ⟨h.window, ?_⟩
    rintro _ ⟨⟩
    exact hc
  | _ => exact ⟨h.window, h.points⟩

theorem Harmless.not_doomed {call : RenderCall} (h : call.state.Harmless) : ¬ call.Doomed := by
  rintro ⟨first, rest, rect, -, hproject, ⟨t, ht, i, hi, hmisses⟩ | hlarge⟩
  · have hv := t.quantise_isNaN (TransferFunction.sample_isNaN i hi)
    have hhead := List.head_mem_head? hmisses.nonempty
    have hnan := hmisses.first_isNaN hv _ hhead
    rw [h.points t ht _ hhead] at hnan
    cases hnan
  · have harea := (View.project_liesIn hproject).area_le
    have hwindow := h.window
    unfold FlatRenderer.windowArea at hwindow
    omega

end RenderState

/-! ### Sessions -/

/-- What ends a session is a computation without a result. -/
def Faulted {α : Type} (x : Except SessionError α) : Prop := ∃ f, x = .error (.fault f)

instance {α : Type} (x : Except SessionError α) : Decidable (Faulted x) :=
  match x with
  | .error (.fault f) => .isTrue ⟨f, rfl⟩
  | .error (.net _) | .error (.render _) | .ok _ => .isFalse (by rintro ⟨f, ⟨⟩⟩)

namespace Session

variable {σ : Type} {r : Renderer σ}

/-- The call that a command makes of a session's renderer. -/
def asks? (s : Session σ) : Command → Option RenderCall
  | .matrix p m =>
    let state := s.state.apply (.matrix p m)
    some ⟨state, s.bricks.current state.currentFrame⟩
  | _ => none

theorem handle_state (s : Session σ) (c : Command) : (handle r s c).2.state = s.state.apply c := by
  cases c with
  | matrix p m =>
    rw [handle, answer]
    dsimp only
    split <;> rfl
  | _ => rfl

theorem handle_faulted (s : Session σ) (c : Command) : Faulted (handle r s c).1 ↔
    ∃ call ∈ s.asks? c, ∃ f, (r.render s.renderer call.state call.bricks).1 = .error (.fault f) := by
  cases c with
  | matrix p m =>
    rw [handle, answer, asks?]
    simp only [Option.mem_some_iff, exists_eq_left']
    rcases r.render s.renderer (s.state.apply (.matrix p m))
      (s.bricks.current (s.state.apply (.matrix p m)).currentFrame) with ⟨(f | f) | image, t⟩
    · exact iff_of_false (by rintro ⟨f, ⟨⟩⟩) (by rintro ⟨f, ⟨⟩⟩)
    · exact iff_of_true ⟨f, rfl⟩ ⟨f, rfl⟩
    · refine iff_of_false ?_ (by rintro ⟨f, ⟨⟩⟩)
      dsimp only
      -- an image that cannot be sent is a failure of the transport
      cases (s.sink.put (.image (image.withFrame (UInt64.ofNat (s.summary.framesRendered + 1))))).1 <;>
        rintro ⟨f, ⟨⟩⟩
  | _ => exact iff_of_false (by rintro ⟨f, ⟨⟩⟩) (by rintro ⟨_, ⟨⟩, -⟩)

/-- A watched renderer has every call in its log. -/
theorem handle_log (s : Session (σ × List RenderCall)) (c : Command) :
    (handle r.recording s c).2.renderer.2 = (s.asks? c).toList ++ s.renderer.2 := by
  cases c with
  | matrix p m =>
    rw [handle, answer, Renderer.recording_render]
    dsimp only
    rcases r.render s.renderer.1 (s.state.apply (.matrix p m))
      (s.bricks.current (s.state.apply (.matrix p m)).currentFrame) with ⟨(f | f) | image, t⟩ <;> rfl
  | _ => rfl

/-- A session whose log has no call that the renderer faults on goes on until it makes one. -/
theorem play_faulted {Bad : RenderCall → Prop}
    (hr : ∀ x state bricks, (∃ f, (r.render x state bricks).1 = .error (.fault f)) ↔
      Bad ⟨state, bricks⟩)
    (s : Session (σ × List RenderCall)) (hs : ¬ ∃ call ∈ s.renderer.2, Bad call)
    (ending : NetError) (cs : List Command) :
    Faulted (play r.recording s ending cs).1 ↔
      ∃ call ∈ (play r.recording s ending cs).2.renderer.2, Bad call := by
  induction cs generalizing s with
  | nil =>
    rw [play]
    split <;> exact iff_of_false (by rintro ⟨f, ⟨⟩⟩) hs
  | cons c cs ih =>
    by_cases hc : c = .exit
    · subst hc
      rw [play_exit]
      exact iff_of_false (by rintro ⟨f, ⟨⟩⟩) hs
    have hlog : (handle r.recording s.counted c).2.renderer.2 =
        (s.counted.asks? c).toList ++ s.renderer.2 := handle_log s.counted c
    have hfault : Faulted (handle r.recording s.counted c).1 ↔
        ∃ call ∈ (handle r.recording s.counted c).2.renderer.2, Bad call := by
      rw [handle_faulted, hlog]
      simp only [Renderer.recording_render, hr, List.mem_append, Option.mem_toList, or_and_right,
        exists_or, or_iff_left hs]
      rfl
    rcases hh : handle r.recording s.counted c with ⟨e | ⟨⟩, t⟩
    · rw [hh] at hfault
      rw [play_of_handle_error _ _ hc hh, ← hfault]
      constructor <;> rintro ⟨f, ⟨⟩⟩ <;> exact ⟨f, rfl⟩
    · rw [hh] at hfault
      rw [play_of_handle_ok _ _ hc hh]
      exact ih t (mt hfault.2 (by rintro ⟨f, ⟨⟩⟩))

/-- What commands keep of the parameters holds in every call. -/
theorem play_log {Good : RenderState → Prop} {cs : List Command}
    (hcs : ∀ c ∈ cs, ∀ state, Good state → Good (state.apply c)) (s : Session (σ × List RenderCall))
    (hstate : Good s.state) (hs : ∀ call ∈ s.renderer.2, Good call.state) (ending : NetError) :
    ∀ call ∈ (play r.recording s ending cs).2.renderer.2, Good call.state := by
  induction cs generalizing s with
  | nil =>
    rw [play]
    split <;> exact hs
  | cons c cs ih =>
    by_cases hc : c = .exit
    · subst hc
      rw [play_exit]
      exact hs
    rw [List.forall_mem_cons] at hcs
    have hlog : ∀ call ∈ (handle r.recording s.counted c).2.renderer.2, Good call.state := by
      rw [handle_log]
      intro call hcall
      rw [List.mem_append, Option.mem_toList] at hcall
      rcases hcall with hcall | hcall
      · cases c with
        | matrix p m =>
          cases hcall
          exact hcs.1 _ hstate
        | _ => cases hcall
      · exact hs call hcall
    have hnext : Good (handle r.recording s.counted c).2.state := by
      rw [handle_state]
      exact hcs.1 _ hstate
    rcases hh : handle r.recording s.counted c with ⟨e | ⟨⟩, t⟩
    · rw [hh] at hlog
      rw [play_of_handle_error _ _ hc hh]
      exact hlog
    · rw [hh] at hlog hnext
      rw [play_of_handle_ok _ _ hc hh]
      exact ih hcs.2 t hnext hlog

/-- A participant with a flat renderer of any colour stops computing exactly if one of its calls is
doomed. Whatever else the stream holds, that does not happen while every command is harmless. -/
theorem run_faulted (r : FlatRenderer) (source : Source) (sink : Sink) :
    (Faulted (run r.renderer () source sink).1 ↔
        ∃ call ∈ log r.renderer () source sink, call.Doomed) ∧
      ((∀ c ∈ source.commands.1, c.Harmless) → ¬ Faulted (run r.renderer () source sink).1) := by
  have hiff : Faulted (run r.renderer () source sink).1 ↔
      ∃ call ∈ log r.renderer () source sink, call.Doomed := by
    rw [← run_recording r.renderer () source sink, log]
    simp only [List.mem_reverse]
    exact play_faulted (fun _ => r.render_fault_iff) _ (by rintro ⟨_, ⟨⟩, -⟩) _ _
  refine ⟨hiff, fun hharmless => ?_⟩
  rw [hiff]
  rintro ⟨call, hcall, hdoomed⟩
  refine RenderState.Harmless.not_doomed ?_ hdoomed
  exact play_log (fun c hc _ h => h.apply (hharmless c hc)) _ RenderState.initial_harmless
    (by rintro _ ⟨⟩) _ call (List.mem_reverse.1 hcall)

/-- A session whose transfer function has one point, at a value that is not a number, ends in a fault;
so does one without a transfer function whose bricks fill the largest window. -/
theorem run_faulted_nan :
    let serve (cs : List Command) :=
      (run (FlatRenderer.mk .one false).renderer () (.ofBytes (cs.flatMap Command.bytes)) .unlimited).1
    let bricks := Command.bricks [⟨⟨⟨-1, -1, -1⟩, ⟨1, 1, 1⟩⟩, 0, 0⟩]
    let camera := Command.matrix .identity .identity
    Faulted (serve [.resize 4 4, bricks, .transferFunction ⟨[⟨.nan, .one⟩], 0⟩, camera, .exit]) ∧
      Faulted (serve [.resize 2147483647 2147483647, bricks, camera, .exit]) := by
  intro serve bricks camera
  have hserve : ∀ cs : List Command, (∀ c ∈ cs, c.Framed) →
      serve cs = (play (FlatRenderer.mk .one false).renderer ⟨(), .initial, {}, {}, .unlimited⟩
        .closed cs).1 := fun cs hcs => by
    have hbytes : (Source.ofBytes (cs.flatMap Command.bytes)).bytes = cs.flatMap Command.bytes ++ [] := by
      rw [Source.bytes_ofBytes, List.append_nil]
    have hsource := Source.commands_eq hcs .nil hbytes
    exact congrArg Prod.fst (run_eq hsource)
  constructor
  · rw [hserve _ (by decide +kernel)]
    decide +kernel
  · rw [hserve _ (by decide +kernel)]
    decide +kernel

end Session
end SortLast
