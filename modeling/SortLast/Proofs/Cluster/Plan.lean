import SortLast.Proofs.Cluster.Window

/-!
# Plans

Everything that can be wrong with a configuration or a volume is found out while the distribution is
planned, before anybody is contacted. A plan that is made has, for every participant and every time
step, the bricks that the layout cuts the participant's leaf into.

* `Plan.Rejected`: one of the checks fails; `Plan.make_error_iff`: that, and nothing else, stops a plan.
* `Plan.Assigns`: the bricks that a participant is given, time step by time step.
* `Plan.assigns_of_make`: a plan assigns bricks to everybody.
-/

namespace SortLast

/-- A valid volume has a time step. -/
theorem Volume.max_frames {v : Volume} (h : v.validate = .ok ()) : max v.frames 1 = v.frames := by
  unfold validate at h
  split at h
  · cases h
  · split at h
    · cases h
    · rename_i hframes
      have hpos : 0 < v.frames.toNat :=
        Nat.pos_of_ne_zero fun hzero => hframes (UInt32.toNat_inj.1 hzero)
      show (if v.frames ≤ 1 then 1 else v.frames) = v.frames
      split
      · rename_i hle
        have hle : v.frames.toNat ≤ 1 := UInt32.le_iff_toNat_le.1 hle
        exact UInt32.toNat_inj.1 (Nat.le_antisymm hpos hle)
      · rfl

theorem BrickLayout.bricksFor_of_cut {layout : BrickLayout} {l : Leaf} {g : LeafGrid}
    (h : layout.cut l = .ok g) (frame : UInt32) : layout.bricksFor l frame = .ok (g.bricks frame) := by
  rw [bricksFor, h]
  rfl

namespace Plan

variable {config : ClusterConfig} {preview : Preview} {plan : Plan}

/-! ### Checks -/

/-- A check fails that comes before any connection. -/
inductive Rejected (config : ClusterConfig) (preview : Preview) : Prop
  | renderer : preview.has .distributed = false → Rejected config preview
  | configuration {e : ClusterError} : config.validate = .error e → Rejected config preview
  | window {e : ClusterError} : ClusterConfig.windowDims config.width config.height = .error e →
      Rejected config preview
  | volume {e : ConfigurationError} : preview.volume.validate = .error e → Rejected config preview
  | weights {e : ConfigurationError} : partitionOf config preview.volume.extent = .error e →
      Rejected config preview
  | brickExtent {e : ConfigurationError} : layout config = .error e → Rejected config preview
  | bricks {p : Partition} {b : BrickLayout} {l : Leaf} {e : ConfigurationError} :
      partitionOf config preview.volume.extent = .ok p → layout config = .ok b → l ∈ p.leaves →
      b.cut l = .error e → Rejected config preview

/-- What a plan was made of: every check has passed. -/
structure Made (config : ClusterConfig) (preview : Preview) (plan : Plan) : Prop where
  renderer : preview.has .distributed = true
  configuration : config.validate = .ok ()
  window : ClusterConfig.windowDims config.width config.height = .ok plan.dims
  volume : preview.volume.validate = .ok ()
  partition : partitionOf config preview.volume.extent = .ok plan.partition
  grids : ∃ b, layout config = .ok b ∧ b.cutAll plan.partition = .ok plan.grids
  currentFrame : plan.currentFrame = sentFrame preview.volume.currentFrame
  frames : plan.frames = max preview.volume.frames 1

theorem made_of_make (h : make config preview = .ok plan) : Made config preview plan := by
  unfold make at h
  split at h
  · cases h
  · rename_i hrenderer
    obtain ⟨u, hvalid, h⟩ := ok_of_bind h
    obtain ⟨dims, hdims, h⟩ := ok_of_bind h
    obtain ⟨v, hvolume, h⟩ := ok_of_bind h
    obtain ⟨partition, hpartition, h⟩ := ok_of_bind h
    obtain ⟨b, hb, h⟩ := ok_of_bind h
    obtain ⟨grids, hgrids, h⟩ := ok_of_bind h
    cases h
    exact ⟨by simpa using hrenderer, hvalid, hdims, ok_of_checked hvolume, ok_of_checked hpartition,
      ⟨b, ok_of_checked hb, ok_of_checked hgrids⟩, rfl, rfl⟩

theorem not_rejected_of_make (h : make config preview = .ok plan) : ¬ Rejected config preview := by
  have hm := made_of_make h
  obtain ⟨b, hb, hgrids⟩ := hm.grids
  intro hr
  cases hr with
  | renderer hr => cases hm.renderer.symm.trans hr
  | configuration hr => cases hm.configuration.symm.trans hr
  | window hr => cases hm.window.symm.trans hr
  | volume hr => cases hm.volume.symm.trans hr
  | weights hr => cases hm.partition.symm.trans hr
  | brickExtent hr => cases hb.symm.trans hr
  | bricks hp hb' hl hr =>
    cases hm.partition.symm.trans hp
    cases hb.symm.trans hb'
    obtain ⟨g, hg⟩ := exists_of_mapM_ok hgrids hl
    cases hg.symm.trans hr

theorem error_of_checked {α : Type} {x : Except ConfigurationError α} {e : ClusterError}
    (h : checked x = .error e) : ∃ cause, x = .error cause ∧ e = .configuration cause := by
  cases x with
  | error cause =>
    cases h
    exact ⟨cause, rfl, rfl⟩
  | ok a => cases h

/-- The reason why there is no plan is no failure of a connection or of a worker. -/
theorem rejected_of_make {e : ClusterError} (h : make config preview = .error e) :
    Rejected config preview ∧ (∀ p cause, e ≠ .socket p cause) ∧ ∀ cause, e ≠ .io cause := by
  unfold make at h
  split at h
  · rename_i hrenderer
    cases h
    exact ⟨.renderer (by simpa using hrenderer), nofun, nofun⟩
  rcases error_of_bind h with hvalid | ⟨u, -, h⟩
  · refine ⟨.configuration hvalid, ?_⟩
    unfold ClusterConfig.validate at hvalid
    grind
  rcases error_of_bind h with hdims | ⟨dims, -, h⟩
  · refine ⟨.window hdims, ?_⟩
    unfold ClusterConfig.windowDims at hdims
    grind
  rcases error_of_bind h with hvolume | ⟨v, -, h⟩
  · obtain ⟨cause, hcause, rfl⟩ := error_of_checked hvolume
    exact ⟨.volume hcause, nofun, nofun⟩
  rcases error_of_bind h with hpartition | ⟨partition, hpartition, h⟩
  · obtain ⟨cause, hcause, rfl⟩ := error_of_checked hpartition
    exact ⟨.weights hcause, nofun, nofun⟩
  rcases error_of_bind h with hlayout | ⟨b, hb, h⟩
  · obtain ⟨cause, hcause, rfl⟩ := error_of_checked hlayout
    exact ⟨.brickExtent hcause, nofun, nofun⟩
  rcases error_of_bind h with hgrids | ⟨grids, -, h⟩
  · obtain ⟨cause, hcause, rfl⟩ := error_of_checked hgrids
    obtain ⟨l, hl, hcut⟩ := exists_mem_of_mapM_error hcause
    exact ⟨.bricks (ok_of_checked hpartition) (ok_of_checked hb) hl hcut, nofun, nofun⟩
  · cases h

/-- There is a plan unless a check fails. -/
theorem make_error_iff (config : ClusterConfig) (preview : Preview) :
    (∃ e, make config preview = .error e) ↔ Rejected config preview := by
  constructor
  · rintro ⟨e, h⟩
    exact (rejected_of_make h).1
  · intro hr
    cases h : make config preview with
    | error e => exact ⟨e, rfl⟩
    | ok plan => exact absurd hr (not_rejected_of_make h)

/-! ### Bricks -/

/-- `lists` are the bricks of participant `i` at the time steps of the volume, in their order: those that
the layout cuts its leaf into. -/
def Assigns (config : ClusterConfig) (preview : Preview) (plan : Plan) (i : Nat)
    (lists : List (List Brick)) : Prop :=
  ∃ leaf b, plan.partition.leaf? i = some leaf ∧ layout config = .ok b ∧
    lists.length = preview.volume.frames.toNat ∧
    ∀ t < preview.volume.frames, ∃ bricks, b.bricksFor leaf t = .ok bricks ∧
      lists[t.toNat]? = some bricks

/-- A plan assigns bricks to everybody. -/
theorem assigns_of_make (h : make config preview = .ok plan) {i : Nat} {lists : List (List Brick)}
    (hi : plan.bricks[i]? = some lists) : Assigns config preview plan i lists := by
  have hm := made_of_make h
  obtain ⟨b, hb, hgrids⟩ := hm.grids
  rw [bricks, List.getElem?_map, Option.map_eq_some_iff] at hi
  obtain ⟨g, hg, rfl⟩ := hi
  obtain ⟨leaf, hleaf, hcut⟩ := getElem?_of_mapM hgrids hg
  rw [hm.frames, Volume.max_frames hm.volume]
  refine ⟨leaf, b, hleaf, hb, ?_, fun t ht => ⟨g.bricks t, BrickLayout.bricksFor_of_cut hcut t, ?_⟩⟩
  · rw [LeafGrid.schedule, List.length_map, List.length_range]
  · rw [LeafGrid.schedule, List.getElem?_map, List.getElem?_range (UInt32.lt_iff_toNat_lt.1 ht)]
    rw [Option.map_some, UInt32.ofNat_toNat]

end Plan
end SortLast
