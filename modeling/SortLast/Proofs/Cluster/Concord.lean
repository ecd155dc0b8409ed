import SortLast.Proofs.Cluster.Freshness
import SortLast.Proofs.Cluster.Steady
import SortLast.Proofs.Cluster.Window

/-!
# Live participants agree

The coordinator mirrors the state of every participant. Whoever is live has got every command, although
cameras go only to those that were found live and any command may fail on the way: then the connection
is closed for good. While a command goes round, those that it has still to reach are one command behind.

* `Seat.Live`, `System.mem_liveParticipants`.
* `Phase.due`: the commands that a participant has still to get.
* `Coordinator.Shows`: a state has the window of the configuration and of the framebuffer.
* `System.Concord`: the invariant; `System.Concord.step`, `System.concord_of_run`.
* `System.liveParticipants_agree`: between operations all live participants are in one state.
-/

namespace SortLast

/-! ### Live seats -/

/-- Commands that reach a connection that stays open change the mirror. -/
theorem Proxy.state_of_send {p : Proxy} {c : Command} (h : (p.send c).2.isConnected) :
    (p.send c).2.state = p.state.apply c := by
  have hopen := isConnected_of_send h
  rw [send_of_open hopen] at h ⊢
  cases hput : p.sink.putCommand c with
  | mk result sink =>
    rw [hput] at h
    cases result with
    | ok u => rfl
    | error e => cases h

namespace Seat

variable {may : Command → Prop} {keeps : List UInt8 → List UInt8 → Prop} {a b : Seat}

/-- Still connected, with a worker that still works. -/
def Live (a : Seat) : Prop := a.proxy.isConnected ∧ a.worker.alive

/-- Whoever is live was live before, and its mirror changes only by what was sent. -/
theorem Step.live (h : Step may keeps a b) (hb : b.Live) :
    a.Live ∧ (b.proxy.state = a.proxy.state ∨ ∃ c, may c ∧ b.proxy.state = a.proxy.state.apply c) := by
  refine ⟨⟨h.isConnected hb.1, h.alive hb.2⟩, ?_⟩
  cases h with
  | @send c hmay =>
    have hopen := hb.1
    rw [putProxy_proxy] at hopen ⊢
    exact .inr ⟨c, hmay, Proxy.state_of_send hopen⟩
  | exit =>
    have hopen := hb.1
    rw [putProxy_proxy, Proxy.exit_isConnected] at hopen
    cases hopen
  | close =>
    have hopen := hb.1
    rw [putProxy_proxy, Proxy.close_isConnected] at hopen
    cases hopen
  | _ => exact .inl rfl

end Seat

/-! ### What is still to be sent -/

namespace Phase

/-- The commands that a participant has still to get. -/
def due : Phase → Nat → List Command
  | sending view rest, p => if p ∈ rest then [.ofView view] else []
  | broadcasting c next _, p => if next ≤ p then [c] else []
  | _, _ => []

/-- The coordinator looks for live participants or sends them something. -/
def Tells : Phase → Prop
  | surveying .. | sending .. | broadcasting .. => True
  | _ => False

variable {f : Phase}

theorem due_of_not_tells (h : ¬ f.Tells) (p : Nat) : f.due p = [] := by
  cases f with
  | surveying | sending | broadcasting => exact absurd trivial h
  | _ => rfl

/-- Otherwise nothing is sent but the command to stop. -/
theorem eq_exit_of_sends (h : ¬ f.Tells) {p : Nat} {c : Command} (hc : f.Sends p c) : c = .exit := by
  cases f with
  | surveying | sending | broadcasting => exact absurd trivial h
  | exiting => exact hc.2
  | _ => exact hc.elim

theorem Waits.not_tells {view : View} (h : f.Waits view) : ¬ f.Tells := by
  cases f with
  | surveying | sending | broadcasting => exact h.elim
  | _ => exact id

end Phase

/-! ### The window -/

namespace Coordinator

/-- The window as it is configured, and that of the framebuffer. -/
def window (c : Coordinator) : (UInt32 × UInt32) × (UInt32 × UInt32) :=
  ((c.config.width, c.config.height), (c.framebuffer.width, c.framebuffer.height))

/-- A participant in state `σ` has the window of the configuration and of the framebuffer. -/
structure Shows (c : Coordinator) (σ : RenderState) : Prop where
  width : σ.width.toInt = c.config.width.toNat
  height : σ.height.toInt = c.config.height.toNat
  framebuffer : c.window.2 = c.window.1

variable {c d : Coordinator} {σ τ : RenderState}

/-- The window does not depend on the connections. -/
theorem window_of_books {e : Coordinator} (h : d.books = e) (he : e.window = c.window) :
    d.window = c.window := by
  rw [← he, ← h]
  rfl

theorem Shows.congr (h : c.Shows σ) (hwindow : d.window = c.window) (hw : τ.width = σ.width)
    (hh : τ.height = σ.height) : d.Shows τ := by
  obtain ⟨hwidth, hheight, hframebuffer⟩ := h
  have hconfig := congrArg Prod.fst hwindow
  obtain ⟨hcw, hch⟩ := Prod.mk.injEq .. ▸ hconfig
  refine ⟨?_, ?_, ?_⟩
  · rw [hw, hwidth, hcw]
  · rw [hh, hheight, hch]
  · rw [hwindow]
    exact hframebuffer

end Coordinator

namespace System

variable {s t : System} {σ : RenderState} {p q : Nat} {a b : Seat} {may : Nat → Command → Prop}
  {keeps : Behaviour}

/-- Turns of the coordinator leave the window as it is. -/
theorem Turn.window (h : Turn s t) : t.coordinator.window = s.coordinator.window := by
  cases h with
  | reap _ _ same | look _ _ _ same | send _ _ same | sent _ _ same | wait _ _ same | collect _ _ same
  | crash _ _ same | tell _ _ same | exit _ _ _ same | exited _ _ _ same | close _ _ same
  | join _ _ same =>
    exact Coordinator.window_of_books same.books rfl
  | nobody _ _ hbooks | refuse _ _ hbooks | told _ hbooks | joined _ hbooks | closeBarrier _ _ hbooks
  | begin _ _ _ _ hbooks | gather _ _ hbooks =>
    exact Coordinator.window_of_books hbooks rfl
  | finish _ hf =>
    obtain ⟨framebuffer, hbooks⟩ := finish_eq hf
    obtain ⟨hw, hh⟩ := Coordinator.finish_size hf
    have hconfig := congrArg Coordinator.config hbooks
    change t.coordinator.config = s.coordinator.config at hconfig
    change t.coordinator.framebuffer.width = s.coordinator.framebuffer.width at hw
    change t.coordinator.framebuffer.height = s.coordinator.framebuffer.height at hh
    rw [Coordinator.window, Coordinator.window, hconfig, hw, hh]

/-- Where the seats stay the same, nothing is sent. -/
theorem SameSeats.untouched (h : SameSeats s t) : Changes (fun _ _ => False) anything s t :=
  h.changes

theorem mem_liveParticipants (hs : s.Steady) :
    p ∈ s.liveParticipants ↔ ∃ a, s.Sits p a ∧ a.Live := by
  rw [liveParticipants, List.mem_filter, List.mem_range, Bool.and_eq_true]
  constructor
  · rintro ⟨hp, hconnected, halive⟩
    obtain ⟨a, ha⟩ := hs.seated p hp
    rw [ha.isConnected] at hconnected
    rw [ha.isAlive] at halive
    exact ⟨a, ha, hconnected, halive⟩
  · rintro ⟨a, ha, hconnected, halive⟩
    refine ⟨ha.lt_participantCount, ?_, ?_⟩
    · rw [ha.isConnected]
      exact hconnected
    · rw [ha.isAlive]
      exact halive

/-! ### The invariant -/

/-- Every live participant will be in state `σ` when it has got what is still to be sent. -/
structure Concord (σ : RenderState) (s : System) : Prop where
  shows : s.coordinator.Shows σ
  agree : ∀ p a, s.Sits p a → a.Live → a.proxy.state.applyAll (s.phase.due p) = σ
  found : ∀ view next live, s.phase = .surveying view next live →
    ∀ p a, s.Sits p a → a.Live → p < next → p ∈ live

/-- Nothing is sent to those that stay connected. -/
theorem concord_of_changes (hs : s.Steady) (hc : Changes may keeps s t)
    (hmay : ∀ p c, may p c → c = .exit) (hshows : t.coordinator.Shows σ)
    (hagree : ∀ p a, s.Sits p a → a.Live → a.proxy.state.applyAll (t.phase.due p) = σ)
    (hfound : ∀ view next live, t.phase = .surveying view next live →
      ∀ p a, s.Sits p a → a.Live → p < next → p ∈ live) : Concord σ t where
  shows := hshows
  agree p b hb hlive := by
    obtain ⟨a, ha, hstep⟩ := hc.back hs.seated hb
    obtain ⟨hlive, hstate⟩ := hstep.live hlive
    have hsame : b.proxy.state = a.proxy.state := by
      rcases hstate with hstate | ⟨c, hsent, hstate⟩
      · exact hstate
      · rw [hstate, hmay p c hsent]
        rfl
    rw [hsame]
    exact hagree p a ha hlive
  found view next live hph p b hb hlive hp := by
    obtain ⟨a, ha, hstep⟩ := hc.back hs.seated hb
    exact hfound view next live hph p a ha (hstep.live hlive).1 hp

/-- The same phase, or another one in which nothing is to be sent. -/
theorem Concord.changes (h : Concord σ s) (hs : s.Steady) (hc : Changes may keeps s t)
    (hmay : ∀ p c, may p c → c = .exit) (hwindow : t.coordinator.window = s.coordinator.window)
    (hdue : ∀ p, t.phase.due p = s.phase.due p)
    (hfound : ∀ view next live, t.phase = .surveying view next live →
      next = 0 ∨ s.phase = .surveying view next live) : Concord σ t := by
  refine concord_of_changes hs hc hmay (h.shows.congr hwindow rfl rfl) ?_ ?_
  · intro p a ha hlive
    rw [hdue]
    exact h.agree p a ha hlive
  · intro view next live hph p a ha hlive hp
    rcases hfound view next live hph with rfl | hsame
    · exact absurd hp (Nat.not_lt_zero p)
    · exact h.found view next live hsame p a ha hlive hp

/-- A live participant after a command was sent to somebody: it has got the command, or it is somebody
else. -/
theorem sendTo_back {c : Command} (hs : s.Steady) (hb : (s.sendTo q c).2.Sits p b) (hlive : b.Live) :
    ∃ a, s.Sits p a ∧ a.Live ∧
      b.proxy.state = if p = q then a.proxy.state.apply c else a.proxy.state := by
  have hc : Changes (fun p d => p = q ∧ d = c) anything s (s.sendTo q c).2 :=
    sendTo_changes ⟨rfl, rfl⟩
  obtain ⟨a, ha, hstep⟩ := hc.back hs.seated hb
  obtain ⟨halive, hstate⟩ := hstep.live hlive
  refine ⟨a, ha, halive, ?_⟩
  split
  · rename_i hpq
    subst hpq
    unfold sendTo at hb
    rw [ha.proxy] at hb
    obtain rfl := (putProxy_sits ha _).unique hb
    have hopen := hlive.1
    rw [Seat.putProxy_proxy] at hopen ⊢
    exact Proxy.state_of_send hopen
  · rename_i hpq
    rcases hstate with hstate | ⟨d, ⟨hp, -⟩, -⟩
    · exact hstate
    · exact absurd hp hpq

/-! ### Turns of the coordinator -/

/-- What follows a phase in which nothing is sent: nothing is to be sent, and the search for live
participants is at its beginning. -/
theorem Turn.not_tells (h : Turn s t) (hs : ¬ s.phase.Tells) :
    (∀ p, t.phase.due p = []) ∧
      ∀ view next live, t.phase = .surveying view next live → next = 0 := by
  have hquiet : ¬ t.phase.Tells → (∀ p, t.phase.due p = []) ∧
      ∀ view next live, t.phase = .surveying view next live → next = 0 :=
    fun ht => ⟨Phase.due_of_not_tells ht, fun view next live hph => absurd (by rw [hph]; trivial) ht⟩
  cases h with
  | reap _ hph =>
    rcases hph with hph | hph
    · exact hquiet (by rw [hph]; exact id)
    · rw [hph]
      refine ⟨fun p => rfl, fun view next live he => ?_⟩
      cases he
      rfl
  | look hph | nobody hph | begin hph | send hph | sent hph | tell hph | told hph =>
    rw [hph] at hs
    exact absurd trivial hs
  | wait _ hph => exact hquiet hph.not_tells
  | refuse _ _ _ hr | finish _ _ hr | joined _ _ hr =>
    rw [hr.phase] at hquiet ⊢
    exact hquiet id
  | close _ hph =>
    rcases hph with hph | hph <;> rw [hph] at hquiet ⊢ <;> exact hquiet id
  | exited _ _ hph =>
    rw [hph] at hquiet ⊢
    exact hquiet id
  | collect _ hph | gather _ hph | crash _ hph | exit _ hph | closeBarrier _ hph | join _ hph =>
    rw [hph] at hquiet ⊢
    exact hquiet id

/-- The search for live participants finds all of them; when it is over, the frame begins, and the
camera is to be sent to everybody that was found. -/
theorem Concord.survey (h : Concord σ s) (hs : s.Steady) {view : View} {next : Nat} {live : List Nat}
    (hph : s.phase = .surveying view next live) (ha : s.advance = some t) : ∃ τ, Concord τ t := by
  have hturn := advance_turn ha
  have hc : Changes s.phase.Sends anything s t := advance_changes ha
  have hmay : ∀ p c, s.phase.Sends p c → c = .exit := by
    rw [hph]
    exact fun _ _ hf => hf.elim
  have hagree : ∀ p a, s.Sits p a → a.Live → a.proxy.state = σ := by
    intro p a ha hlive
    have hdue := h.agree p a ha hlive
    rw [hph] at hdue
    exact hdue
  simp only [System.advance, hph] at ha
  split at ha
  · cases ha
    refine ⟨σ, concord_of_changes hs hc hmay (h.shows.congr hturn.window rfl rfl) hagree ?_⟩
    intro view' next' live' hnext p a ha hlive hp
    cases hnext
    have hfound := h.found view next live hph p a ha hlive
    rcases Nat.lt_succ_iff_lt_or_eq.1 hp with hlt | rfl
    · split
      · exact List.mem_append_left _ (hfound hlt)
      · exact hfound hlt
    · have hisLive : (s.coordinator.isConnected p && s.pool.isAlive p) = true := by
        rw [ha.isConnected, ha.isAlive, hlive.1, hlive.2]
        rfl
      rw [if_pos hisLive]
      exact List.mem_append_right _ List.mem_cons_self
  · rename_i hle
    split at ha
    · cases ha
      exact ⟨σ, concord_of_changes hs hc hmay (h.shows.congr hturn.window rfl rfl) hagree
        fun view next live ht => by cases ht⟩
    · cases ha
      refine ⟨σ.apply (.ofView view), concord_of_changes hs hc hmay
        (h.shows.congr hturn.window rfl rfl) ?_ fun view next live ht => by cases ht⟩
      intro p a ha hlive
      have hp := ha.lt_participantCount
      have hmem := h.found view next live hph p a ha hlive (by omega)
      show a.proxy.state.applyAll (if p ∈ live then _ else _) = _
      rw [if_pos hmem, ← hagree p a ha hlive]
      rfl

/-- The camera goes to one participant after the other. -/
theorem Concord.send (h : Concord σ s) (hs : s.Steady) {view : View} {rest : List Nat}
    (hph : s.phase = .sending view (q :: rest)) :
    Concord σ ((s.sendTo q (.ofView view)).2.goTo (.sending view rest)) := by
  have hnodup := hs.orderly
  rw [hph] at hnodup
  obtain ⟨hq, -⟩ := List.nodup_cons.1 hnodup
  refine ⟨?_, ?_, fun view next live ht => by cases ht⟩
  · have hbooks := (sendTo_books s q (.ofView view)).books
    exact h.shows.congr (Coordinator.window_of_books hbooks rfl) rfl rfl
  · intro p b hb hlive
    obtain ⟨a, ha, halive, hstate⟩ := sendTo_back hs ⟨hb.proxy, hb.worker, hb.slot, hb.sent⟩ hlive
    have hagree := h.agree p a ha halive
    rw [hph] at hagree
    change a.proxy.state.applyAll (if p ∈ q :: rest then _ else _) = σ at hagree
    show b.proxy.state.applyAll (if p ∈ rest then _ else _) = σ
    rw [hstate]
    by_cases hp : p = q
    · subst hp
      rw [if_pos rfl, if_neg hq]
      rw [if_pos List.mem_cons_self] at hagree
      exact hagree
    · rw [if_neg hp]
      by_cases hmem : p ∈ rest
      · rw [if_pos hmem]
        rwa [if_pos (List.mem_cons_of_mem q hmem)] at hagree
      · rw [if_neg hmem]
        rwa [if_neg fun hcons => (List.mem_cons.1 hcons).elim hp hmem] at hagree

/-- A command goes to one participant after the other, over every connection that is open. -/
theorem Concord.broadcast (h : Concord σ s) (hs : s.Steady) {c : Command} {next : Nat}
    {first : Option ClusterError} (hph : s.phase = .broadcasting c next first)
    (ha : s.advance = some t) : Concord σ t := by
  have hwindow := (advance_turn ha).window
  have hc : Changes s.phase.Sends anything s t := advance_changes ha
  have hagree : ∀ p a, s.Sits p a → a.Live →
      a.proxy.state.applyAll (if next ≤ p then [c] else []) = σ := by
    intro p a ha hlive
    have hdue := h.agree p a ha hlive
    rw [hph] at hdue
    exact hdue
  simp only [System.advance, hph] at ha
  split at ha
  · split at ha
    · cases ha
      refine ⟨h.shows.congr hwindow rfl rfl, ?_, fun view next live ht => by cases ht⟩
      intro p b hb hlive
      obtain ⟨a, ha, halive, hstate⟩ := sendTo_back hs ⟨hb.proxy, hb.worker, hb.slot, hb.sent⟩ hlive
      have hdue := hagree p a ha halive
      show b.proxy.state.applyAll (if next + 1 ≤ p then [c] else []) = σ
      rw [hstate]
      by_cases hp : p = next
      · subst hp
        rw [if_pos rfl, if_neg (Nat.not_succ_le_self p)]
        rw [if_pos (Nat.le_refl p)] at hdue
        exact hdue
      · rw [if_neg hp]
        by_cases hle : next ≤ p
        · rw [if_pos (by omega)]
          rwa [if_pos hle] at hdue
        · rw [if_neg (by omega)]
          rwa [if_neg hle] at hdue
    -- a participant that is not connected is not live
    · rename_i hclosed
      cases ha
      refine concord_of_changes hs (SameSeats.untouched ⟨rfl, rfl, rfl, rfl⟩) (fun _ _ hf => hf.elim)
        (h.shows.congr hwindow rfl rfl) ?_ fun view next live ht => by cases ht
      intro p a ha hlive
      have hdue := hagree p a ha hlive
      have hp : p ≠ next := by
        rintro rfl
        rw [ha.isConnected] at hclosed
        exact hclosed hlive.1
      show a.proxy.state.applyAll (if next + 1 ≤ p then [c] else []) = σ
      by_cases hle : next ≤ p
      · rw [if_pos (by omega)]
        rwa [if_pos hle] at hdue
      · rw [if_neg (by omega)]
        rwa [if_neg hle] at hdue
  · rename_i hle
    cases ha
    refine concord_of_changes hs (SameSeats.untouched ⟨rfl, rfl, rfl, rfl⟩) (fun _ _ hf => hf.elim)
      (h.shows.congr hwindow rfl rfl) ?_ fun view next live ht => by cases ht
    intro p a ha hlive
    have hdue := hagree p a ha hlive
    have hp := ha.lt_participantCount
    rwa [if_neg (by omega)] at hdue

/-- The common state changes when the camera of a frame begins to go round. -/
theorem Concord.advance (h : Concord σ s) (hs : s.Steady) (ha : s.advance = some t) :
    ∃ τ, Concord τ t := by
  have hturn := advance_turn ha
  cases hph : s.phase with
  | surveying view next live => exact h.survey hs hph ha
  | broadcasting c next first => exact ⟨σ, h.broadcast hs hph ha⟩
  | sending view rest =>
    cases rest with
    | nil =>
      simp only [System.advance, hph] at ha
      cases ha
      refine ⟨σ, h.changes hs (SameSeats.untouched ⟨rfl, rfl, rfl, rfl⟩) (fun _ _ hf => hf.elim) rfl
        (fun p => ?_)
        fun view next live ht => by cases ht⟩
      rw [hph]
      show [] = if p ∈ [] then [Command.ofView view] else []
      rw [if_neg List.not_mem_nil]
    | cons q rest =>
      simp only [System.advance, hph] at ha
      cases ha
      exact ⟨σ, h.send hs hph⟩
  | _ =>
    have htells : ¬ s.phase.Tells := by rw [hph]; exact id
    obtain ⟨hdue, hfound⟩ := hturn.not_tells htells
    have hc : Changes s.phase.Sends anything s t := advance_changes ha
    refine ⟨σ, h.changes hs hc (fun p c => Phase.eq_exit_of_sends htells) hturn.window
      (fun p => ?_) fun view next live ht =>
        .inl (hfound view next live ht)⟩
    rw [hdue, Phase.due_of_not_tells htells]

/-! ### Operations -/

/-- An operation that has a command for everybody. -/
theorem Concord.tell (h : Concord σ s) (hs : s.Steady) (hidle : s.phase = .idle) (hsame : SameSeats s t)
    {c : Command} (ht : t.phase = .broadcasting c 0 none)
    (hshows : t.coordinator.Shows (σ.apply c)) : Concord (σ.apply c) t := by
  refine concord_of_changes hs hsame.untouched (fun _ _ hf => hf.elim) hshows ?_
    fun view next live hph => by cases ht.symm.trans hph
  intro p a ha hlive
  have hdue := h.agree p a ha hlive
  rw [hidle] at hdue
  rw [ht]
  show a.proxy.state.applyAll (if 0 ≤ p then [c] else []) = _
  rw [if_pos (Nat.zero_le p), ← hdue]
  rfl

/-- Only the resizing of the window changes the window. -/
theorem apply_setting_size (σ : RenderState) (r : RenderSetting) :
    (σ.apply r.command).width = σ.width ∧ (σ.apply r.command).height = σ.height := by
  cases r <;> exact ⟨rfl, rfl⟩

theorem Concord.start (h : Concord σ s) (hs : s.Steady) (hidle : s.phase = .idle) (op : Operation) :
    ∃ τ, Concord τ (s.start op) := by
  have hsame := start_same s op
  -- an operation that has nothing to send
  have hquiet : ¬ (s.start op).phase.Tells →
      (s.start op).coordinator.window = s.coordinator.window → ∃ τ, Concord τ (s.start op) := by
    intro ht hwindow
    refine ⟨σ, h.changes hs hsame.untouched (fun _ _ hf => hf.elim) hwindow
      (fun p => ?_) fun view next live hph =>
        absurd (by rw [hph]; trivial) ht⟩
    rw [Phase.due_of_not_tells ht, hidle]
    rfl
  cases op with
  | render view => exact hquiet id rfl
  | set r =>
    obtain ⟨hw, hh⟩ := apply_setting_size σ r
    exact ⟨_, h.tell hs hidle hsame rfl (h.shows.congr rfl hw hh)⟩
  | setBackground colour => exact hquiet id rfl
  | shutdown =>
    by_cases hdown : s.coordinator.isShutDown
    · have hstart : s.start .shutdown = s.answer (.done (.ok ())) := if_pos hdown
      rw [hstart] at hquiet ⊢
      exact hquiet id rfl
    · refine hquiet ?_ ?_
      · simp only [System.start, if_neg hdown]
        exact id
      · simp only [System.start, if_neg hdown]
        rfl
  | resize width height =>
    cases hd : ClusterConfig.windowDims width height with
    | error e =>
      have hstart : s.start (.resize width height) = s.answer (.done (.error e)) := by
        simp only [System.start, hd]
      rw [hstart] at hquiet ⊢
      exact hquiet id rfl
    | ok dims =>
      obtain ⟨w, k⟩ := dims
      cases hf : s.coordinator.framebuffer.resize width height with
      | error f =>
        have hstart : s.start (.resize width height) = s.goTo (.crashed f) := by
          simp only [System.start, hd, hf]
        rw [hstart] at hquiet ⊢
        exact hquiet id rfl
      | ok framebuffer =>
        have hstart : s.start (.resize width height) = { s with
            coordinator := { s.coordinator with
              config := { s.coordinator.config with width, height }, framebuffer }
            phase := .broadcasting (.resize w k) 0 none } := by
          simp only [System.start, hd, hf]
        rw [hstart] at hsame ⊢
        obtain ⟨hw, hh⟩ := ClusterConfig.windowDims_ok hd
        obtain ⟨hfw, hfh⟩ := Framebuffer.allocate_ok hf
        exact ⟨_, h.tell hs hidle hsame rfl ⟨hw, hh, Prod.ext hfw hfh⟩⟩

/-! ### All moves -/

/-- The time that runs out is none in which something is sent. -/
theorem Concord.expire (h : Concord σ s) (hs : s.Steady) (he : s.expire = some t) : Concord σ t := by
  have htells : ¬ s.phase.Tells := by
    unfold System.expire at he
    split at he
    · rename_i hph
      rw [hph]
      exact id
    · cases he
  have hturn := expire_turn he
  obtain ⟨hdue, hfound⟩ := hturn.not_tells htells
  refine h.changes hs (expire_same he).untouched (fun _ _ hf => hf.elim) hturn.window
    (fun p => ?_) fun view next live ht =>
      .inl (hfound view next live ht)
  rw [hdue, Phase.due_of_not_tells htells]

theorem Concord.step (h : Concord σ s) (hs : s.Steady) (hstep : Step keeps s t) :
    ∃ τ, Concord τ t := by
  rcases step_moves hstep with ha | he | ⟨hidle, op, rfl⟩ | ⟨hph, hbooks, hc⟩
  · exact h.advance hs ha
  · exact ⟨σ, h.expire hs he⟩
  · exact h.start hs hidle op
  -- moves of others send nothing and leave the coordinator where it is
  · have hwindow := Coordinator.window_of_books hbooks.books rfl
    exact ⟨σ, h.changes hs hc (fun _ _ hf => hf.elim) hwindow (fun p => by rw [hph])
      fun view next live ht => .inr (hph.symm.trans ht)⟩

theorem concord_of_run (hs : s.Steady) (h : ∃ σ, Concord σ s) (hrun : Run keeps s t) :
    ∃ τ, Concord τ t := by
  induction hrun with
  | refl => exact h
  | tail hrun hstep ih =>
    obtain ⟨τ, hτ⟩ := ih
    exact hτ.step (hs.run hrun) hstep

/-- After the setup everybody is in the same state. -/
theorem concord_of_setup {net : Network} {config : ClusterConfig} {preview : Preview} {plan : Plan}
    {connections : List Connection}
    (hsetup : (Setup.run net config preview).outcome = .ok (plan, connections))
    (h : System.ofPlan config plan connections = .ok s) : Concord plan.told s := by
  obtain ⟨hdims, htold⟩ := Connection.told_of_setup hsetup
  obtain ⟨hw, hh⟩ := ClusterConfig.windowDims_ok hdims
  obtain ⟨-, -, -, hphase, -⟩ := ofPlan_eq h
  refine ⟨?_, ?_, fun view next live hph => by cases hphase.symm.trans hph⟩
  · obtain ⟨c, hc, h⟩ := ok_of_bind h
    cases h
    obtain ⟨framebuffer, hf, hc⟩ := ok_of_bind hc
    cases hc
    obtain ⟨hfw, hfh⟩ := Framebuffer.allocate_ok hf
    exact ⟨hw, hh, Prod.ext hfw hfh⟩
  · intro p a ha _
    obtain ⟨c, hc, rfl⟩ := ha.exists_connection h
    rw [hphase]
    exact htold c (List.mem_of_getElem? hc)

/-- Whatever operations were called, whatever fails on the way and whatever participants do: between
operations all live participants are in one state, whose window is that of the configuration and of the
framebuffer. -/
theorem liveParticipants_agree {net : Network} {config : ClusterConfig} {preview : Preview} {plan : Plan}
    {connections : List Connection} {s₀ s : System}
    (hsetup : (Setup.run net config preview).outcome = .ok (plan, connections))
    (h₀ : System.ofPlan config plan connections = .ok s₀) (hrun : Run anything s₀ s)
    (hidle : s.phase = .idle) :
    ∃ σ : RenderState, (∀ p ∈ s.liveParticipants, s.coordinator.participantState p = some σ) ∧
      σ.width.toInt = s.coordinator.config.width.toNat ∧
      σ.height.toInt = s.coordinator.config.height.toNat ∧
      s.coordinator.framebuffer.width = s.coordinator.config.width ∧
      s.coordinator.framebuffer.height = s.coordinator.config.height := by
  have hs₀ := steady_of_ofPlan h₀
  obtain ⟨σ, h⟩ := concord_of_run hs₀ ⟨_, concord_of_setup hsetup h₀⟩ hrun
  obtain ⟨hw, hh, hframebuffer⟩ := h.shows
  refine ⟨σ, fun p hp => ?_, hw, hh, congrArg Prod.fst hframebuffer, congrArg Prod.snd hframebuffer⟩
  obtain ⟨a, ha, hlive⟩ := (mem_liveParticipants (hs₀.run hrun)).1 hp
  have hagree := h.agree p a ha hlive
  rw [hidle] at hagree
  rw [Coordinator.participantState, ha.proxy, Option.map_some]
  exact congrArg some hagree

/-- Three participants, of which number 1 takes what a setup sends and nothing more. -/
def flaky : Network where
  lookup _ := .ok (.v4 127 0 0 1)
  dial p _ := .ok { Duo.participants.peer p with
    sink := { Sink.unlimited with
      flushReply := fun k => if p = 1 ∧ 7 ≤ k then some .zeroWrite else none } }
  listen _ := .ok []

/-- A window for them. -/
def flakyConfig : ClusterConfig where
  participants := [⟨"a", 1⟩, ⟨"b", 1⟩, ⟨"c", 1⟩]
  width := 2
  height := 1

/-- The outcome of their setup, for a volume of three voxels. -/
def flakySetup : Except ClusterError (Plan × List Connection) :=
  (Setup.run flaky flakyConfig { volume := { dims := ⟨3, 1, 1⟩ }, capabilities := [.distributed] }).outcome

/-- The cluster after the bounding box was toggled. -/
def toggled : Option (System × System) := do
  let (plan, connections) ← flakySetup.toOption
  let s₀ ← (System.ofPlan flakyConfig plan connections).toOption
  guard (s₀.phase = .idle)
  let s ← (s₀.start (.set .toggleBoundingBox)).follow Duo.participants (List.replicate 4 Duo.turn)
  return (s₀, s)

/-- A participant that does not get the command is not live any more, and the others agree. -/
theorem liveParticipants_agree_toggled : ∃ s₀ s, toggled = some (s₀, s) ∧ Run anything s₀ s ∧
    s.liveParticipants = [0, 2] ∧
    (s.coordinator.participantState 1).map RenderState.boundingBox = some false ∧
    ∃ σ, s.coordinator.participantState 0 = some σ ∧ s.coordinator.participantState 2 = some σ ∧
      σ.boundingBox = true ∧ σ.width.toInt = 2 := by
  have hlive : toggled.map (fun x => (x.2.phase, x.2.liveParticipants, x.2.coordinator.config.width)) =
      some (.idle, [0, 2], 2) := by decide +kernel
  have hboxes : toggled.map (fun x => x.2.coordinator.proxies.map fun p => p.state.boundingBox) =
      some [true, false, true] := by decide +kernel
  obtain ⟨⟨s₀, s⟩, hs, hlive⟩ := Option.map_eq_some_iff.1 hlive
  rw [hs, Option.map_some, Option.some.injEq] at hboxes
  simp only [Prod.mk.injEq] at hlive
  obtain ⟨hidle, hlive, hwindow⟩ := hlive
  have hbox : ∀ p, (s.coordinator.participantState p).map RenderState.boundingBox =
      ([true, false, true] : List Bool)[p]? := by
    intro p
    rw [← hboxes, List.getElem?_map, Coordinator.participantState, Option.map_map]
    rfl
  have htoggled := hs
  simp only [toggled, Option.bind_eq_bind, Option.bind_eq_some_iff, Option.guard_eq_some',
    Option.pure_def, Option.some.injEq] at hs
  obtain ⟨⟨plan, connections⟩, hsetup, t₀, h₀, -, hbefore, t, hfollow, heq⟩ := hs
  cases heq
  have hrun : Run anything s₀ s := (follow_within hfollow).run hbefore
  obtain ⟨σ, hagree, hw, -⟩ :=
    liveParticipants_agree (ok_of_toOption hsetup) (ok_of_toOption h₀) hrun hidle
  have hzero := hagree 0 (by rw [hlive]; decide)
  refine ⟨s₀, s, htoggled, hrun, hlive, hbox 1, σ, hzero, hagree 2 (by rw [hlive]; decide), ?_, ?_⟩
  · have hshown := hbox 0
    rw [hzero] at hshown
    exact Option.some.inj hshown
  · rw [hw, hwindow]
    rfl

end System
end SortLast
