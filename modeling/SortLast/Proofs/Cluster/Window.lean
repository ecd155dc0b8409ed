import SortLast.Proofs.Cluster.Participants
import SortLast.Proofs.Compositing.Pixels
import SortLast.Proofs.Partition.Visibility

/-!
# The window of a cluster

The window is known to the configuration, to the framebuffer and to every participant. A setup brings
all participants to one state, with the window of the configuration; compositing leaves the size of the
framebuffer as it is.

* `ClusterConfig.windowDims_ok`: the sides of a window are sent as they are.
* `Compositor.composite_size`, `Coordinator.finish_size`.
* `Plan.told`: the state that a plan brings participants to.
* `Connection.told_of_setup`: every participant of a cluster that was set up is in it.
-/

namespace SortLast

/-! ### Sizes -/

theorem ClusterConfig.windowDims_ok {width height : UInt32} {w h : Int32}
    (hd : windowDims width height = .ok (w, h)) :
    w.toInt = width.toNat ∧ h.toInt = height.toNat := by
  unfold windowDims maxSide at hd
  split at hd
  · cases hd
  · rename_i hrange
    rw [not_or] at hrange
    cases hd
    exact ⟨Int32.toInt_ofNat_of_lt (by omega), Int32.toInt_ofNat_of_lt (by omega)⟩

namespace Framebuffer

variable {α : Type} {f g k : Framebuffer α}

/-- Two windows of the same size. -/
def SameSize (f g : Framebuffer α) : Prop := g.width = f.width ∧ g.height = f.height

theorem SameSize.trans (h : f.SameSize g) (h' : g.SameSize k) : f.SameSize k :=
  ⟨h'.1.trans h.1, h'.2.trans h.2⟩

theorem enableDepth_size (f : Framebuffer α) : f.SameSize f.enableDepth := by
  unfold enableDepth
  split <;> exact ⟨rfl, rfl⟩

theorem clear_size (f : Framebuffer α) (color : Vec4 α) : f.SameSize (f.clear color) := ⟨rfl, rfl⟩

variable [Channel α]

theorem allocate_ok {width height : UInt32} {keepsDepth : Bool}
    (h : allocate width height keepsDepth = .ok f) : f.width = width ∧ f.height = height := by
  obtain ⟨u, -, h⟩ := ok_of_bind h
  cases h
  unfold withDepth
  split
  · exact enableDepth_size (blank width height)
  · exact ⟨rfl, rfl⟩

end Framebuffer

namespace Compositor

variable {α : Type} [Channel α] {op : Vec4 α → Vec4 α → Vec4 α} {target f : Framebuffer α}

theorem add_size {c : Compositor} {i : Image} (h : c.add op target i = .ok f) :
    target.SameSize f := by
  obtain ⟨pixels, depth, -, rfl⟩ := add_cases h
  exact ⟨rfl, rfl⟩

theorem foldlM_add_size {c : Compositor} {images : List Image}
    (h : images.foldlM (c.add op) target = .ok f) : target.SameSize f :=
  invariant_of_foldlM (fun _ _ _ _ hadd hsize => hsize.trans (add_size hadd)) h ⟨rfl, rfl⟩

/-- Whatever is composited, the window stays as large as it is. -/
theorem composite_size {c : Compositor} {background : Vec4 α} {images : List Image}
    (h : c.composite target background images = .ok f) : target.SameSize f := by
  have henable : target.SameSize (if c.depth then target.enableDepth else target) := by
    split
    · exact target.enableDepth_size
    · exact ⟨rfl, rfl⟩
  unfold composite at h
  simp only at h
  split at h
  · exact (henable.trans (Framebuffer.clear_size _ _)).trans (foldlM_add_size h)
  · obtain ⟨g, hg, h⟩ := ok_of_bind h
    cases h
    have hsize := (henable.trans (Framebuffer.clear_size _ _)).trans (foldlM_add_size hg)
    exact hsize

end Compositor

/-- A frame that is finished leaves the window as it is. -/
theorem Coordinator.finish_size {c d : Coordinator} {view : View} {evicted lost : List Nat}
    {g : Gathering} {r : Except ClusterError FrameStats}
    (h : c.finish view evicted lost g = .ok (r, d)) : c.framebuffer.SameSize d.framebuffer := by
  unfold finish at h
  split at h
  · cases h
    exact ⟨rfl, rfl⟩
  · obtain ⟨framebuffer, hf, h⟩ := ok_of_bind h
    cases h
    exact Compositor.composite_size hf

/-! ### The setup -/

/-- The state that a plan brings participants to. -/
def Plan.told (plan : Plan) : RenderState :=
  (RenderState.initial.apply (.resize plan.dims.1 plan.dims.2)).apply (.currentFrame plan.currentFrame)

/-- Bricks are no part of the state. -/
theorem Plan.applyAll_commands (plan : Plan) (bricks : List (List Brick)) :
    RenderState.initial.applyAll (plan.commands bricks) = plan.told := by
  have hbricks : ∀ s : RenderState, s.applyAll (bricks.map .bricks) = s := by
    intro s
    induction bricks with
    | nil => rfl
    | cons b bs ih => exact ih
  unfold commands
  rw [RenderState.applyAll_append]
  exact hbricks _

/-- A cut gives every leaf a grid. -/
theorem BrickLayout.cutAll_length {layout : BrickLayout} {p : Partition} {grids : List LeafGrid}
    (h : layout.cutAll p = .ok grids) : grids.length = p.leaves.length :=
  length_of_mapM h

/-- A valid configuration has as many weights as participants, if it has any. -/
theorem ClusterConfig.weights_length {config : ClusterConfig} (h : config.validate = .ok ()) :
    (config.weights.getD (config.participants.map fun _ => 1)).length = config.participants.length := by
  unfold validate at h
  split at h
  · cases h
  · split at h
    · cases h
    · cases hw : config.weights with
      | none => exact List.length_map _
      | some ws =>
        rw [hw] at h
        simp only at h
        split at h
        · cases h
        · rename_i hlength
          exact not_not.1 hlength

theorem Plan.ok_of_checked {α : Type} {x : Except ConfigurationError α} {a : α}
    (h : checked x = .ok a) : x = .ok a := by
  cases x with
  | error e => cases h
  | ok b => cases h; rfl

/-- A plan has the window of the configuration, and bricks for every participant. -/
theorem Plan.make_ok {config : ClusterConfig} {preview : Preview} {plan : Plan}
    (h : make config preview = .ok plan) :
    ClusterConfig.windowDims config.width config.height = .ok plan.dims ∧
      plan.bricks.length = config.participants.length := by
  unfold make at h
  split at h
  · cases h
  · obtain ⟨u, hvalid, h⟩ := ok_of_bind h
    obtain ⟨dims, hdims, h⟩ := ok_of_bind h
    obtain ⟨v, -, h⟩ := ok_of_bind h
    obtain ⟨partition, hpartition, h⟩ := ok_of_bind h
    obtain ⟨layout, -, h⟩ := ok_of_bind h
    obtain ⟨grids, hgrids, h⟩ := ok_of_bind h
    cases h
    refine ⟨hdims, ?_⟩
    rw [bricks, List.length_map, BrickLayout.cutAll_length (ok_of_checked hgrids),
      Partition.leaves_length (ok_of_checked hpartition)]
    exact ClusterConfig.weights_length hvalid

namespace Connection

/-- The greeting changes no state. -/
theorem state_of_open? {net : Network} {p : Nat} {address : ParticipantAddress} {proxy : Option Proxy}
    {c : Connection} (h : open? net p address = (proxy, .ok c)) : c.proxy.state = .initial := by
  unfold open? at h
  split at h
  · cases h
  · split at h
    · cases h
    · rename_i peer _
      unfold handshake at h
      simp only at h
      split at h
      · cases h
      · split at h
        · cases h
        · split at h
          · cases h
          · cases h
            rfl

theorem told_of_distribute {plan plan' : Plan} {next : Nat} {told rest connections : List Connection}
    {lists : List (List (List Brick))} (ht : ∀ c ∈ told, c.proxy.state = plan.told)
    (hr : ∀ c ∈ rest, c.proxy.state = .initial) (hlength : rest.length = lists.length)
    (h : (Setup.distribute plan next told rest lists).outcome = .ok (plan', connections)) :
    plan' = plan ∧ ∀ c ∈ connections, c.proxy.state = plan.told := by
  induction rest generalizing next told lists with
  | nil =>
    rw [distribute_stop _ _ _ _ (.inl rfl), List.append_nil] at h
    cases h
    exact ⟨rfl, ht⟩
  | cons c rest ih =>
    rw [List.forall_mem_cons] at hr
    cases lists with
    | nil => cases hlength
    | cons bricks lists =>
      rw [distribute_cons] at h
      split at h
      · rename_i proxy hs
        refine ih ?_ hr.2 (Nat.succ.inj hlength) h
        refine List.forall_mem_append.2 ⟨ht, List.forall_mem_singleton.2 ?_⟩
        show proxy.state = plan.told
        rw [(Proxy.sendAll_ok hs).2.2, hr.1, plan.applyAll_commands]
      · cases h

theorem told_of_connect {net : Network} {plan plan' : Plan} {next : Nat}
    {opened connections : List Connection} {addresses : List ParticipantAddress}
    (ho : ∀ c ∈ opened, c.proxy.state = .initial)
    (hlength : opened.length + addresses.length = plan.bricks.length)
    (h : (Setup.connect net plan next opened addresses).outcome = .ok (plan', connections)) :
    plan' = plan ∧ ∀ c ∈ connections, c.proxy.state = plan.told := by
  induction addresses generalizing next opened with
  | nil => exact told_of_distribute (by simp) ho hlength (ok_of_launch h)
  | cons address rest ih =>
    rw [connect_cons] at h
    split at h
    · rename_i c hc
      refine ih ?_ ?_ h
      · exact List.forall_mem_append.2 ⟨ho, List.forall_mem_singleton.2 (state_of_open? hc)⟩
      · rw [List.length_cons] at hlength
        rw [List.length_append, List.length_singleton, ← hlength]
        omega
    · cases h

/-- A setup brings all participants to one state, with the window of the configuration. -/
theorem told_of_setup {net : Network} {config : ClusterConfig} {preview : Preview} {plan : Plan}
    {connections : List Connection}
    (h : (Setup.run net config preview).outcome = .ok (plan, connections)) :
    ClusterConfig.windowDims config.width config.height = .ok plan.dims ∧
      ∀ c ∈ connections, c.proxy.state = plan.told := by
  unfold Setup.run at h
  split at h
  · cases h
  · rename_i plan' hplan
    obtain ⟨hdims, hlength⟩ := Plan.make_ok hplan
    obtain ⟨rfl, htold⟩ := told_of_connect (by simp) (by rw [hlength, List.length_nil, Nat.zero_add]) h
    exact ⟨hdims, htold⟩

end Connection
end SortLast
