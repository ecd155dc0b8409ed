import SortLast.Proofs.Mirror
import SortLast.Proofs.Participant.Answers

/-!
# The calls of a renderer

Which calls a list of commands asks of a participant's renderer, told without a session: every camera
update asks for one, with the parameters that all commands so far have set, and with the bricks of
the current time step from the latest list that held any.

* `Command.latestBricks`: the bricks of a time step after some commands; `BrickStore.current_put`
  says that a store of bricks follows them.
* `Session.calls`: the calls for a list of commands.
* `Renderer.results`, `Renderer.after`: what a renderer answers to calls, and where they lead it.
* `Session.run_recording`: a renderer that is watched works as before.
-/

namespace SortLast

/-! ### Bricks -/

namespace Command

/-- The bricks of a time step that a command brings, in the order of its list. -/
def bricksOf (t : Int32) : Command → List Brick
  | bricks bs => bs.filter fun b => (b.frame.toNat : Int) = t.toInt
  | _ => []

/-- The bricks of a time step from the latest command that brought any. -/
def latestBricks (t : Int32) (cs : List Command) : List Brick :=
  ((cs.map (bricksOf t)).reverse.find? (· ≠ [])).getD []

theorem latestBricks_concat (t : Int32) (cs : List Command) (c : Command) :
    latestBricks t (cs ++ [c]) = if bricksOf t c = [] then latestBricks t cs else bricksOf t c := by
  rw [latestBricks, List.map_append, List.map_singleton, List.reverse_append, List.reverse_singleton,
    List.singleton_append, List.find?_cons]
  by_cases h : bricksOf t c = [] <;> simp [h, latestBricks]

theorem latestBricks_concat_of_not_bricks (t : Int32) (cs : List Command) {c : Command}
    (h : ∀ bs, c ≠ bricks bs) : latestBricks t (cs ++ [c]) = latestBricks t cs := by
  rw [latestBricks_concat, if_pos]
  cases c with
  | bricks bs => exact absurd rfl (h bs)
  | _ => rfl

end Command

namespace BrickStore

theorem lookup_map (g : UInt32 → List Brick) (f : UInt32) (fs : List UInt32) :
    (fs.map fun e => (e, g e)).lookup f = if f ∈ fs then some (g f) else none := by
  induction fs with
  | nil => rfl
  | cons e fs ih =>
    rw [List.map_cons, List.lookup_cons]
    by_cases he : f = e
    · subst he
      simp
    · rw [beq_false_of_ne he]
      simpa [he] using ih

theorem get_put (s : BrickStore) (bs : List Brick) (f : UInt32) :
    (s.put bs).get f =
      if bs.filter (·.frame == f) = [] then s.get f else bs.filter (·.frame == f) := by
  have hmem : f ∈ (bs.map Brick.frame).eraseDups ↔ bs.filter (·.frame == f) ≠ [] := by
    simp [List.mem_eraseDups, List.filter_eq_nil_iff]
  rw [get, put, List.lookup_append, lookup_map]
  by_cases h : bs.filter (·.frame == f) = []
  · rw [if_pos h, if_neg (fun hf => hmem.1 hf h), Option.none_or, get]
  · rw [if_neg h, if_pos (hmem.2 h), Option.some_or, Option.getD_some]

/-- A store keeps, for every time step, the bricks of the latest list that held any of them. -/
theorem current_put (s : BrickStore) (bs : List Brick) (t : Int32) :
    (s.put bs).current t =
      if (Command.bricks bs).bricksOf t = [] then s.current t else (Command.bricks bs).bricksOf t := by
  rw [current, current, Command.bricksOf]
  by_cases ht : t < 0
  · -- no brick has a negative time step
    have hnone : bs.filter (fun b => (b.frame.toNat : Int) = t.toInt) = [] := by
      rw [List.filter_eq_nil_iff]
      intro b _ hb
      have hneg : t.toInt < 0 := Int32.lt_iff_toInt_lt.1 ht
      simp only [decide_eq_true_eq] at hb
      omega
    rw [if_pos ht, if_pos ht, hnone, if_pos rfl]
  · have hpos : 0 ≤ t.toInt := Int.not_lt.1 fun h => ht (Int32.lt_iff_toInt_lt.2 h)
    have hlt : t.toInt < 2 ^ 31 := t.toInt_lt
    have htag : (fun b : Brick => b.frame == UInt32.ofNat t.toInt.toNat) =
        fun b => decide ((b.frame.toNat : Int) = t.toInt) := by
      funext b
      rw [Bool.eq_iff_iff, beq_iff_eq, decide_eq_true_eq, ← UInt32.toNat_inj,
        UInt32.toNat_ofNat_of_lt' (show t.toInt.toNat < 2 ^ 32 by omega)]
      omega
    rw [if_neg ht, if_neg ht, get_put, htag]

end BrickStore

/-! ### Calls -/

namespace Session

/-- The call that a command asks for after the commands before it: a camera update asks for one. -/
def call? (before : List Command) : Command → Option RenderCall
  | .matrix p m =>
    let state := RenderState.initial.applyAll (before ++ [.matrix p m])
    some ⟨state, Command.latestBricks state.currentFrame before⟩
  | _ => none

/-- The calls that commands ask for, in order. -/
def calls (cs : List Command) : List RenderCall :=
  (List.range cs.length).filterMap fun i => (cs[i]?).bind (call? (cs.take i))

theorem calls_concat (cs : List Command) (c : Command) :
    calls (cs ++ [c]) = calls cs ++ (call? cs c).toList := by
  rw [calls, List.length_append, List.length_singleton, List.range_succ, List.filterMap_append, calls]
  congr 1
  · refine List.filterMap_congr fun i hi => ?_
    have hi : i < cs.length := List.mem_range.1 hi
    rw [List.getElem?_append_left hi, List.take_append_of_le_length (Nat.le_of_lt hi)]
  · rw [List.filterMap_cons, List.getElem?_concat_length, List.take_left, Option.bind_some]
    cases call? cs c <;> rfl

/-- The calls that come before some call are the calls of the commands that come before its camera
update. -/
theorem exists_of_calls_eq {cs : List Command} {done more : List RenderCall} {call : RenderCall}
    (h : calls cs = done ++ call :: more) :
    ∃ before c rest, cs = before ++ c :: rest ∧ calls before = done ∧ call? before c = some call := by
  induction cs using List.reverseRecOn generalizing more with
  | nil => simp [calls] at h
  | append_singleton cs c ih =>
    rw [calls_concat] at h
    cases hc : call? cs c with
    | none =>
      rw [hc, Option.toList_none, List.append_nil] at h
      obtain ⟨before, d, rest, rfl, hdone, hd⟩ := ih h
      exact ⟨before, d, rest ++ [c], by simp, hdone, hd⟩
    | some last =>
      rw [hc, Option.toList_some] at h
      rcases List.eq_nil_or_concat more with rfl | ⟨more, x, rfl⟩
      · obtain ⟨hdone, hlast⟩ := List.append_inj' h rfl
        cases hlast
        exact ⟨cs, c, [], rfl, hdone, hc⟩
      · rw [List.concat_eq_append, ← List.cons_append, ← List.append_assoc] at h
        obtain ⟨before, d, rest, rfl, hdone, hd⟩ := ih (List.append_inj' h rfl).1
        exact ⟨before, d, rest ++ [c], by simp, hdone, hd⟩

end Session

namespace Renderer

variable {σ : Type} (r : Renderer σ)

/-- What a renderer answers to calls, one after the other. -/
def results : σ → List RenderCall → List (Except RenderError Image)
  | _, [] => []
  | s, c :: cs => (r.render s c.state c.bricks).1 :: results (r.render s c.state c.bricks).2 cs

/-- The state of a renderer after calls. -/
def after (s : σ) (cs : List RenderCall) : σ :=
  cs.foldl (fun s c => (r.render s c.state c.bricks).2) s

theorem results_append (s : σ) (cs ds : List RenderCall) :
    r.results s (cs ++ ds) = r.results s cs ++ r.results (r.after s cs) ds := by
  induction cs generalizing s with
  | nil => rfl
  | cons c cs ih =>
    rw [List.cons_append, results, results, ih, List.cons_append]
    rfl

theorem after_append (s : σ) (cs ds : List RenderCall) :
    r.after s (cs ++ ds) = r.after (r.after s cs) ds := List.foldl_append

theorem results_length (s : σ) (cs : List RenderCall) : (r.results s cs).length = cs.length := by
  induction cs generalizing s with
  | nil => rfl
  | cons c cs ih => rw [results, List.length_cons, ih, List.length_cons]

/-- A result belongs to the call at its place, which is made after all calls before it. -/
theorem exists_of_results_eq {s : σ} {cs : List RenderCall}
    {before more : List (Except RenderError Image)} {x : Except RenderError Image}
    (h : r.results s cs = before ++ x :: more) :
    ∃ done call rest, cs = done ++ call :: rest ∧ r.results s done = before ∧
      (r.render (r.after s done) call.state call.bricks).1 = x := by
  induction cs generalizing s before with
  | nil => simp [results] at h
  | cons c cs ih =>
    rw [results] at h
    cases before with
    | nil =>
      cases h
      exact ⟨[], c, cs, rfl, rfl, rfl⟩
    | cons y before =>
      rw [List.cons_append, List.cons.injEq] at h
      obtain ⟨rfl, h⟩ := h
      obtain ⟨done, call, rest, rfl, hdone, hcall⟩ := ih h
      exact ⟨c :: done, call, rest, rfl, by rw [results, hdone], hcall⟩

theorem recording_render (s : σ × List RenderCall) (state : RenderState) (bricks : List Brick) :
    r.recording.render s state bricks = ((r.render s.1 state bricks).1,
      ((r.render s.1 state bricks).2, ⟨state, bricks⟩ :: s.2)) := rfl

theorem results_recording (s : σ) (log : List RenderCall) (cs : List RenderCall) :
    r.recording.results (s, log) cs = r.results s cs := by
  induction cs generalizing s log with
  | nil => rfl
  | cons c cs ih => exact congrArg _ (ih _ _)

theorem after_recording (s : σ) (log : List RenderCall) (cs : List RenderCall) :
    r.recording.after (s, log) cs = (r.after s cs, cs.reverse ++ log) := by
  induction cs generalizing s log with
  | nil => rfl
  | cons c cs ih =>
    rw [List.reverse_cons, List.append_assoc, List.singleton_append]
    exact ih _ _

end Renderer

/-! ### Watched renderers -/

namespace Session

variable {σ : Type} (r : Renderer σ)

theorem play_of_handle_ok {s t : Session σ} (ending : NetError) {c : Command} {cs : List Command}
    (hc : c ≠ .exit) (h : handle r s.counted c = (.ok (), t)) :
    play r s ending (c :: cs) = play r t ending cs := by
  rw [counted] at h
  rw [play, if_neg hc, h]

theorem play_of_handle_error {s t : Session σ} (ending : NetError) {c : Command} {cs : List Command}
    {e : SessionError} (hc : c ≠ .exit) (h : handle r s.counted c = (.error e, t)) :
    play r s ending (c :: cs) = (.error e, t) := by
  rw [counted] at h
  rw [play, if_neg hc, h]

/-- The session without the log of its renderer. -/
def unwatched (s : Session (σ × List RenderCall)) : Session σ :=
  ⟨s.renderer.1, s.state, s.bricks, s.summary, s.sink⟩

theorem answer_recording (s : Session (σ × List RenderCall)) :
    Prod.map id unwatched (answer r.recording s) = answer r s.unwatched := by
  rw [answer, answer, Renderer.recording_render]
  dsimp only [unwatched]
  rcases r.render s.renderer.1 s.state (s.bricks.current s.state.currentFrame) with
    ⟨(f | f) | image, t⟩ <;> rfl

theorem handle_recording (s : Session (σ × List RenderCall)) (c : Command) :
    Prod.map id unwatched (handle r.recording s c) = handle r s.unwatched c := by
  cases c with
  | matrix p m => exact answer_recording r _
  | _ => rfl

theorem play_recording (s : Session (σ × List RenderCall)) (ending : NetError) (cs : List Command) :
    Prod.map id unwatched (play r.recording s ending cs) = play r s.unwatched ending cs := by
  induction cs generalizing s with
  | nil =>
    rw [play, play]
    split <;> rfl
  | cons c cs ih =>
    by_cases hc : c = .exit
    · subst hc
      rfl
    · have h := handle_recording r s.counted c
      rcases hh : handle r.recording s.counted c with ⟨e | ⟨⟩, t⟩
      · rw [hh] at h
        rw [play_of_handle_error _ _ hc hh, play_of_handle_error _ _ hc h.symm]
        rfl
      · rw [hh] at h
        rw [play_of_handle_ok _ _ hc hh, play_of_handle_ok _ _ hc h.symm]
        exact ih t

/-- Watching a renderer changes nothing but the log that is kept. -/
theorem run_recording (renderer : σ) (source : Source) (sink : Sink) :
    Prod.map id unwatched (run r.recording (renderer, []) source sink) = run r renderer source sink :=
  play_recording r _ _ _

end Session
end SortLast
