import SortLast.Proofs.Cluster.Setup
import SortLast.Proofs.Cluster.Concord
import SortLast.Proofs.Participant.Watched

/-!
# Bricks on their way to the renderer

A setup tells every participant its bricks, one list for each time step, and nobody is told of bricks
again. So the renderer of a participant is called with the bricks of the time step that was set last, the
same that the layout cuts the participant's leaf into.

* `Command.latestBricks_schedule`: a participant keeps the lists apart by their time steps.
* `Plan.Assigns.latestBricks`: what it keeps is what the plan has assigned.
* `Proxy.Extends`: a stream that begins with a setup and goes on without bricks.
* `System.Distributed`: every stream of a cluster is of this kind; `System.Distributed.step`,
  `System.Distributed.run`.
* `System.renders_assigned_bricks`: the calls of a renderer, for all runs of the cluster.
-/

namespace SortLast

/-! ### Lists of bricks -/

namespace Command

/-- A list of bricks of one time step counts for that time step only. -/
theorem bricksOf_of_frame {t : Int32} {n : Nat} {bs : List Brick} (h : ∀ b ∈ bs, b.frame.toNat = n) :
    bricksOf t (bricks bs) = if (n : Int) = t.toInt then bs else [] := by
  rw [bricksOf]
  split
  · rename_i hn
    exact List.filter_eq_self.2 fun b hb => decide_eq_true (by rw [h b hb, hn])
  · rename_i hn
    exact List.filter_eq_nil_iff.2 fun b hb hd => hn (by rw [← h b hb, of_decide_eq_true hd])

/-- Commands without bricks leave the bricks as they are. -/
theorem latestBricks_append (t : Int32) (cs : List Command) {ds : List Command}
    (h : ∀ bs, bricks bs ∉ ds) : latestBricks t (cs ++ ds) = latestBricks t cs := by
  induction ds using List.reverseRecOn with
  | nil => rw [List.append_nil]
  | append_singleton ds d ih =>
    rw [← List.append_assoc, latestBricks_concat_of_not_bricks _ _ fun bs hd => h bs (by simp [hd])]
    exact ih fun bs hbs => h bs (List.mem_append_left _ hbs)

/-- After one list for each time step, each time step has its list. -/
theorem latestBricks_schedule (t : Int32) {cs : List Command} (hcs : ∀ bs, bricks bs ∉ cs)
    {lists : List (List Brick)}
    (h : ∀ (n : Nat) (bs : List Brick), lists[n]? = some bs → ∀ b ∈ bs, b.frame.toNat = n) :
    latestBricks t (cs ++ lists.map bricks) =
      if 0 ≤ t.toInt then lists[t.toInt.toNat]?.getD [] else [] := by
  induction lists using List.reverseRecOn with
  | nil =>
    rw [List.map_nil, List.append_nil, ← List.nil_append cs, latestBricks_append t [] hcs]
    simp [latestBricks]
  | append_singleton lists last ih =>
    have hlast : ∀ b ∈ last, b.frame.toNat = lists.length :=
      h lists.length last List.getElem?_concat_length
    rw [List.map_append, ← List.append_assoc, List.map_singleton, latestBricks_concat,
      bricksOf_of_frame hlast, ih fun n bs hbs => h n bs ?_]
    · by_cases ht : (lists.length : Int) = t.toInt
      -- the last list is the one of this time step, and no list before it is
      · obtain ⟨hpos, hn⟩ : 0 ≤ t.toInt ∧ t.toInt.toNat = lists.length := by omega
        rw [if_pos ht, if_pos hpos, if_pos hpos, hn, List.getElem?_concat_length,
          List.getElem?_eq_none (Nat.le_refl _)]
        cases last <;> rfl
      · rw [if_neg ht, if_pos rfl]
        split
        · rename_i hpos
          rw [List.getElem?_append]
          split
          · rfl
          · rename_i hn
            rw [List.getElem?_eq_none (Nat.le_of_not_lt hn), List.getElem?_eq_none]
            rw [List.length_singleton]
            omega
        · rfl
    · rw [List.getElem?_append_left (List.getElem?_eq_some_iff.1 hbs).1]
      exact hbs

end Command

/-- The bricks of a leaf at a time step carry the time step. -/
theorem BrickLayout.frame_of_bricksFor {layout : BrickLayout} {l : Leaf} {t : UInt32}
    {bricks : List Brick} (h : layout.bricksFor l t = .ok bricks) : ∀ b ∈ bricks, b.frame = t := by
  obtain ⟨g, -, h⟩ := ok_of_bind h
  cases h
  intro b hb
  obtain ⟨c, -, rfl⟩ := List.mem_map.1 hb
  rfl

/-- Only setting the time step changes it. -/
theorem RenderState.applyAll_currentFrame (σ : RenderState) {cs : List Command}
    (h : ∀ v, .currentFrame v ∉ cs) : (σ.applyAll cs).currentFrame = σ.currentFrame := by
  induction cs generalizing σ with
  | nil => rfl
  | cons c cs ih =>
    rw [applyAll_cons, ih _ fun v hv => h v (List.mem_cons_of_mem c hv)]
    cases c with
    | currentFrame v => exact absurd List.mem_cons_self (h v)
    | _ => rfl

namespace Plan

variable {config : ClusterConfig} {preview : Preview} {plan : Plan} {i : Nat}
  {lists : List (List Brick)}

/-- The bricks that are assigned to a time step carry the time step. -/
theorem Assigns.frame (h : plan.Assigns config preview i lists) {n : Nat} {bs : List Brick}
    (hn : lists[n]? = some bs) : ∀ b ∈ bs, b.frame.toNat = n := by
  obtain ⟨leaf, b, -, -, hlength, hbricks⟩ := h
  have hlt : n < preview.volume.frames.toNat := by
    rw [← hlength]
    exact (List.getElem?_eq_some_iff.1 hn).1
  have hword : (UInt32.ofNat n).toNat = n :=
    UInt32.toNat_ofNat_of_lt' (hlt.trans preview.volume.frames.toNat_lt)
  obtain ⟨bricks, hfor, hget⟩ := hbricks (UInt32.ofNat n)
    (UInt32.lt_iff_toNat_lt.2 (by rwa [hword]))
  rw [hword, hn] at hget
  cases hget
  intro b hb
  rw [BrickLayout.frame_of_bricksFor hfor b hb, hword]

/-- Whoever was told its part, and of no bricks since, has the bricks of its leaf at every time step of
the volume, and none at any other. -/
theorem Assigns.latestBricks (h : plan.Assigns config preview i lists) :
    ∃ leaf layout, plan.partition.leaf? i = some leaf ∧ Plan.layout config = .ok layout ∧
      ∀ more, (∀ bs, .bricks bs ∉ more) → ∀ v : Int32,
        (∀ t < preview.volume.frames, v.toInt = t.toNat →
          layout.bricksFor leaf t = .ok (Command.latestBricks v (plan.commands lists ++ more))) ∧
        ((∀ t < preview.volume.frames, v.toInt ≠ t.toNat) →
          Command.latestBricks v (plan.commands lists ++ more) = []) := by
  have hframe : ∀ (n : Nat) (bs : List Brick), lists[n]? = some bs → ∀ b ∈ bs, b.frame.toNat = n :=
    fun _ _ hn => h.frame hn
  obtain ⟨leaf, layout, hleaf, hlayout, hlength, hbricks⟩ := h
  refine ⟨leaf, layout, hleaf, hlayout, fun more hmore v => ?_⟩
  rw [Command.latestBricks_append _ _ hmore, commands,
    Command.latestBricks_schedule v (by simp) hframe]
  constructor
  · intro t ht hv
    obtain ⟨bricks, hfor, hget⟩ := hbricks t ht
    rw [if_pos (by omega), hv, Int.toNat_natCast, hget, hfor]
    rfl
  · intro hv
    split
    · rename_i hpos
      rw [List.getElem?_eq_none, Option.getD_none]
      by_contra hlt
      -- a time step within the lists is one of the volume
      have hn : v.toInt.toNat < preview.volume.frames.toNat := by omega
      have hword : (UInt32.ofNat v.toInt.toNat).toNat = v.toInt.toNat :=
        UInt32.toNat_ofNat_of_lt' (hn.trans preview.volume.frames.toNat_lt)
      refine hv (UInt32.ofNat v.toInt.toNat) (UInt32.lt_iff_toNat_lt.2 (by rwa [hword])) ?_
      rw [hword]
      omega
    · rfl

end Plan

/-! ### Streams -/

/-- The stream behind a sending end begins with a setup and goes on without bricks. -/
def Proxy.Extends (setup : List Command) (p : Proxy) : Prop :=
  ∃ more w, p.Carries (setup ++ more) w ∧ ∀ bs, .bricks bs ∉ more

namespace Proxy

variable {setup more : List Command} {p q : Proxy} {w : List UInt8}

/-- One command more, if it brings no bricks. -/
theorem Carries.extends_concat (h : q.Carries (setup ++ more ++ [c]) w) (hmore : ∀ bs, .bricks bs ∉ more)
    (hc : ∀ bs, c ≠ .bricks bs) : q.Extends setup := by
  refine ⟨more ++ [c], w, by rwa [← List.append_assoc], fun bs hbs => ?_⟩
  rcases List.mem_append.1 hbs with hbs | hbs
  · exact hmore bs hbs
  · exact hc bs (List.mem_singleton.1 hbs).symm

end Proxy

/-- Where no bricks are sent, a stream goes on without bricks. -/
theorem Seat.Step.extends {may : Command → Prop} {keeps : List UInt8 → List UInt8 → Prop} {a b : Seat}
    (hstep : Seat.Step may keeps a b) (hmay : ∀ c, may c → ∀ bs, c ≠ .bricks bs) {setup : List Command}
    (h : a.proxy.Extends setup) : b.proxy.Extends setup := by
  obtain ⟨more, w, hcarries, hmore⟩ := h
  cases hstep with
  | @send c hc =>
    rw [putProxy_proxy]
    rcases hcarries.send c with ⟨v, hv⟩ | ⟨-, hv⟩
    · exact ⟨more, v, hv, hmore⟩
    · exact hv.extends_concat hmore (hmay c hc)
  | exit hc =>
    rw [putProxy_proxy]
    rcases hcarries.exit with ⟨v, hv⟩ | ⟨-, hv⟩
    · exact ⟨more, v, hv, hmore⟩
    · exact hv.extends_concat hmore (hmay .exit hc)
  | close =>
    rw [putProxy_proxy]
    exact ⟨more, w, hcarries.close, hmore⟩
  | _ => exact ⟨more, w, hcarries, hmore⟩

/-! ### Runs -/

/-- No command with bricks goes round. -/
def Phase.Brickless : Phase → Prop
  | broadcasting c .. => ∀ bs, c ≠ .bricks bs
  | _ => True

namespace Phase.Brickless

variable {f : Phase} {s t : System}

theorem sends (h : f.Brickless) {p : Nat} {c : Command} (hc : f.Sends p c) : ∀ bs, c ≠ .bricks bs := by
  cases f with
  | sending view rest =>
    cases rest with
    | nil => exact hc.elim
    | cons q rest =>
      obtain ⟨-, rfl⟩ := hc
      exact fun bs => Command.noConfusion
  | broadcasting d next first =>
    obtain ⟨-, rfl⟩ := hc
    exact h
  | exiting next first =>
    obtain ⟨-, rfl⟩ := hc
    exact fun bs => Command.noConfusion
  | _ => exact hc.elim

theorem turn (h : s.phase.Brickless) (hturn : System.Turn s t) : t.phase.Brickless := by
  cases ht : t.phase with
  | broadcasting c next first =>
    obtain ⟨_, _, hs⟩ := hturn.broadcasting ht
    rw [hs] at h
    exact h
  | _ => trivial

/-- No operation passes bricks on. -/
theorem start (s : System) (op : Operation) : (s.start op).phase.Brickless := by
  cases ht : (s.start op).phase with
  | broadcasting c next first =>
    intro bs
    rcases System.start_broadcasting ht with ⟨r, rfl⟩ | ⟨width, height, rfl⟩
    · cases r <;> exact Command.noConfusion
    · exact Command.noConfusion
  | _ => trivial

end Phase.Brickless

namespace System

variable {config : ClusterConfig} {preview : Preview} {plan : Plan} {s t : System}
  {may : Nat → Command → Prop} {keeps : Behaviour}

/-- Everybody was told the bricks that the plan assigns, and of no bricks since. -/
structure Distributed (config : ClusterConfig) (preview : Preview) (plan : Plan) (s : System) : Prop where
  steady : s.Steady
  brickless : s.phase.Brickless
  streams : ∀ p a, s.Sits p a → ∃ lists, plan.Assigns config preview p lists ∧
    a.proxy.Extends (plan.commands lists)

theorem Distributed.changes (h : Distributed config preview plan s) (hc : Changes may keeps s t)
    (hmay : ∀ p c, may p c → ∀ bs, c ≠ .bricks bs) (hsteady : t.Steady) (hphase : t.phase.Brickless) :
    Distributed config preview plan t where
  steady := hsteady
  brickless := hphase
  streams p b hb := by
    obtain ⟨a, ha, hstep⟩ := hc.back h.steady.seated hb
    obtain ⟨lists, hlists, hextends⟩ := h.streams p a ha
    exact ⟨lists, hlists, hstep.extends (hmay p) hextends⟩

theorem Distributed.step (h : Distributed config preview plan s) (hstep : Step keeps s t) :
    Distributed config preview plan t := by
  have hsteady := h.steady.step hstep
  rcases step_cases hstep with ⟨hturn, hc⟩ | ⟨-, hsame, op, rfl, -⟩ | ⟨hph, -, hc⟩
  · exact h.changes hc (fun p c hsends => h.brickless.sends hsends) hsteady (h.brickless.turn hturn)
  · exact h.changes hsame.untouched (fun _ _ hf => hf.elim) hsteady (.start s op)
  · exact h.changes hc (fun _ _ hf => hf.elim) hsteady (by rw [hph]; exact h.brickless)

theorem Distributed.run (h : Distributed config preview plan s) (hrun : Run keeps s t) :
    Distributed config preview plan t := by
  induction hrun with
  | refl => exact h
  | tail _ hstep ih => exact ih.step hstep

end System

/-- A greeting over a new connection is all that its stream holds. -/
theorem Connection.carries_of_open? {net : Network}
    (hfresh : ∀ p a peer, net.dial p a = .ok peer → peer.sink.accepted = []) {p : Nat}
    {address : ParticipantAddress} {c : Connection} (h : (open? net p address).2 = .ok c) :
    c.proxy.Carries [] [] := by
  cases hr : net.reach p address with
  | error e =>
    rw [open?_of_unreached hr] at h
    cases h
  | ok peer =>
    rw [open?_of_reached hr] at h
    obtain ⟨part, -, haccepted, -, hok⟩ := handshake_sent p peer
    obtain ⟨rfl, hproxy, -, -⟩ := hok c h
    obtain ⟨socket, -, hdial⟩ := ok_of_bind hr
    rw [hproxy, hfresh p socket peer hdial, List.nil_append] at haccepted
    refine ⟨?_, by simp, Unfinished.nil, fun _ => rfl⟩
    rw [haccepted]
    simp

namespace System

variable {config : ClusterConfig} {preview : Preview} {plan : Plan} {s t : System}

theorem distributed_of_setup {net : Network} {connections : List Connection}
    (hfresh : ∀ p a peer, net.dial p a = .ok peer → peer.sink.accepted = [])
    (hsetup : (Setup.run net config preview).outcome = .ok (plan, connections))
    (h : System.ofPlan config plan connections = .ok s) : Distributed config preview plan s where
  steady := steady_of_ofPlan h
  brickless := by
    obtain ⟨-, -, -, hphase, -⟩ := ofPlan_eq h
    rw [hphase]
    trivial
  streams p a ha := by
    obtain ⟨c, hc, rfl⟩ := ha.exists_connection h
    obtain ⟨-, htold⟩ := Setup.told_of_run hsetup
    obtain ⟨address, c', lists, -, hopen, hlists, hs⟩ := htold p c hc
    have hcarries := (Connection.carries_of_open? hfresh hopen).sendAll hs
    exact ⟨lists, hlists, [], [], by rwa [List.append_nil], fun bs => List.not_mem_nil⟩

/-- The call that a camera update asks for after the commands `before`, at a participant whose leaf is
cut by `layout` at so many time steps. It has the parameters that were set before, and so the time step
that was set last; its bricks are those of the leaf at that time step, if the volume has it. -/
structure AssignedCall (layout : BrickLayout) (leaf : Leaf) (frames : UInt32) (before : List Command)
    (projection modelview : Matrix) (call : RenderCall) : Prop where
  state : call.state = .applyAll .initial (before ++ [.matrix projection modelview])
  currentFrame : ∀ earlier v later, before = earlier ++ .currentFrame v :: later →
    (∀ w, .currentFrame w ∉ later) → call.state.currentFrame = v
  bricks : ∀ t < frames, call.state.currentFrame.toInt = t.toNat →
    layout.bricksFor leaf t = .ok call.bricks
  noBricks : (∀ t < frames, call.state.currentFrame.toInt ≠ t.toNat) → call.bricks = []

/-- The calls of a participant's renderer, whatever operations the cluster was asked for and whatever
fails. The participant `p` serves what it has received up to some state `s`: every camera update asks
for one call, with the bricks that the plan has assigned to the time step set last. -/
theorem renders_assigned_bricks {net : Network} {config : ClusterConfig} {preview : Preview} {plan : Plan}
    {connections : List Connection} {s₀ s : System}
    (hfresh : ∀ p a peer, net.dial p a = .ok peer → peer.sink.accepted = [])
    (hsetup : (Setup.run net config preview).outcome = .ok (plan, connections))
    (h₀ : System.ofPlan config plan connections = .ok s₀) (hrun : Run anything s₀ s) {p : Nat}
    (hp : p < config.participants.length) :
    ∃ leaf layout bytes, plan.partition.leaf? p = some leaf ∧ Plan.layout config = .ok layout ∧
      s.accepted p = Session.greeting ++ bytes ∧
      ∀ source : Source, source.bytes = bytes → source.failure = none →
        source.commands = (s.received p, .closed) ∧
        ∀ before projection modelview rest,
          s.received p = before ++ .matrix projection modelview :: rest →
          ∃ call, AssignedCall layout leaf preview.volume.frames before projection modelview call ∧
            Session.Makes source before call := by
  have hdistributed := (distributed_of_setup hfresh hsetup h₀).run hrun
  obtain ⟨a, ha⟩ : ∃ a, s.Sits p a := by
    refine hdistributed.steady.seated p ?_
    rwa [hrun.participantCount, participantCount_ofPlan h₀, (Setup.told_of_run hsetup).1]
  obtain ⟨lists, hlists, more, w, hcarries, hmore⟩ := hdistributed.streams p a ha
  obtain ⟨leaf, layout, hleaf, hlayout, hlatest⟩ := hlists.latestBricks
  have hreceived : s.received p = plan.commands lists ++ more := by
    rw [System.received, ha.accepted]
    exact hcarries.received
  refine ⟨leaf, layout, (s.received p).flatMap Command.bytes ++ w, hleaf, hlayout, ?_, ?_⟩
  · rw [ha.accepted, hcarries.accepted, hreceived, List.append_assoc]
  intro source hsource hend
  have hcommands : source.commands = (s.received p, .closed) := by
    rw [Source.commands_eq (hreceived ▸ hcarries.framed) hcarries.unfinished hsource, Source.ending,
      hend]
  refine ⟨hcommands, fun before projection modelview rest hsplit => ?_⟩
  -- no camera comes before the setup is over
  obtain ⟨later, rfl, hlater⟩ : ∃ later, before = plan.commands lists ++ later ∧
      ∀ bs, .bricks bs ∉ later := by
    rw [hreceived] at hsplit
    rcases List.append_eq_append_iff.1 hsplit with ⟨later, hbefore, hmore'⟩ | ⟨_ | ⟨c, tail⟩, hplan, hrest⟩
    · exact ⟨later, hbefore, fun bs hbs => hmore bs (by rw [hmore']; exact List.mem_append_left _ hbs)⟩
    · exact ⟨[], by rw [hplan, List.append_nil, List.append_nil], fun bs => List.not_mem_nil⟩
    · cases hrest
      have hcount := Connection.matrixCount_plan plan lists
      rw [hplan, Command.matrixCount, List.countP_eq_zero] at hcount
      exact absurd rfl (hcount _ (List.mem_append_right _ List.mem_cons_self))
  obtain ⟨hbricks, hnone⟩ := hlatest later hlater _
  refine ⟨_, ⟨rfl, fun earlier v last hbefore hlast => ?_, hbricks, hnone⟩,
    Session.makes_of_call? (hcommands.trans (by rw [hsplit])) rfl⟩
  rw [hbefore, List.append_assoc, List.cons_append, RenderState.applyAll_append,
    RenderState.applyAll_cons, RenderState.applyAll_currentFrame]
  · rfl
  · intro w hw
    rcases List.mem_append.1 hw with hw | hw
    · exact hlast w hw
    · cases List.mem_singleton.1 hw

end System

namespace Duo

/-- The volume of two voxels at two time steps. -/
def film : Preview := { volume := { dims := ⟨2, 1, 1⟩, frames := 2 }, capabilities := [.distributed] }

/-- The cluster before any operation, and after the second time step was set and the first participant
was sent a camera. -/
def shown : Option (System × System) := do
  let (plan, connections) ← (Setup.run network config film).outcome.toOption
  let s₀ ← (System.ofPlan config plan connections).toOption
  guard (s₀.phase = .idle)
  let t ← (s₀.start (.set (.currentFrame 1))).follow participants (List.replicate 3 turn)
  guard (t.phase = .idle)
  let s ← (t.start (.render .default)).follow participants (List.replicate 5 turn)
  return (s₀, s)

end Duo

namespace System

/-- The renderer of the first participant is called with its one brick at the second time step. -/
theorem renders_assigned_bricks_film : ∃ s₀ s, Duo.shown = some (s₀, s) ∧ Run anything s₀ s ∧
    ∃ (leaf : Leaf) (source : Source) (before : List Command) (call : RenderCall),
      s.accepted 0 = Session.greeting ++ source.bytes ∧
      s.received 0 = before ++ [.matrix .identity .identity] ∧ call.state.currentFrame = 1 ∧
      BrickLayout.single.bricksFor leaf 1 = .ok call.bricks ∧ call.bricks.map Brick.frame = [1] ∧
      Session.Makes source before call := by
  have hreceived : Duo.shown.map (fun x => (x.2.received 0).drop 4) =
      some [.currentFrame 1, .matrix .identity .identity] := by decide +kernel
  obtain ⟨⟨s₀, s⟩, hs, hlast⟩ := Option.map_eq_some_iff.1 hreceived
  have hshown := hs
  simp only [Duo.shown, Option.bind_eq_bind, Option.bind_eq_some_iff, Option.guard_eq_some',
    Option.pure_def, Option.some.injEq] at hs
  obtain ⟨⟨plan, connections⟩, hsetup, t₀, h₀, -, hidle, t, hset, -, hidle', u, hrender, heq⟩ := hs
  cases heq
  have hrun : Run anything s₀ s :=
    ((follow_within hset).run hidle).trans ((follow_within hrender).run hidle')
  have hfresh : ∀ p a peer, Duo.network.dial p a = .ok peer → peer.sink.accepted = [] := by
    intro p a peer hp
    cases hp
    rfl
  obtain ⟨leaf, layout, bytes, -, hlayout, hbytes, hsource⟩ :=
    renders_assigned_bricks hfresh (ok_of_toOption hsetup) (ok_of_toOption h₀) hrun
      (show 0 < Duo.config.participants.length by decide)
  cases hlayout
  have hsplit : s.received 0 =
      ((s.received 0).take 4 ++ [.currentFrame 1]) ++ [.matrix .identity .identity] := by
    rw [List.append_assoc]
    exact (List.take_append_drop 4 _).symm.trans (by rw [hlast]; rfl)
  obtain ⟨-, hcalls⟩ := hsource (.ofBytes bytes) (Source.bytes_ofBytes bytes) rfl
  obtain ⟨call, hcall, hmakes⟩ := hcalls _ _ _ [] hsplit
  have hframe : call.state.currentFrame = 1 := hcall.currentFrame _ 1 [] rfl fun w => List.not_mem_nil
  have hbricks := hcall.bricks 1 (by decide) (by rw [hframe]; rfl)
  refine ⟨s₀, s, hshown, hrun, leaf, .ofBytes bytes, _, call, ?_, hsplit, hframe, hbricks, ?_, hmakes⟩
  · rw [Source.bytes_ofBytes, hbytes]
  · have hsame := congrArg (Except.map (List.map Brick.frame)) hbricks
    exact (Except.ok.inj hsame).symm

end System
end SortLast
