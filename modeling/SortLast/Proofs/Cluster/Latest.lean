import SortLast.Proofs.Cluster.Gathering
import SortLast.Proofs.Cluster.Reports

/-!
# Latest images

A slot holds the latest image that its participant delivered. The coordinator keeps the images that it
has gathered, and misses none: before a frame is gathered, what it keeps for a participant is what is in
the participant's slot, if that is from an earlier frame.

* `Seat.Holds`, `Seat.Before`: what is in a slot, and what time does to a seat; `System.Run.seat`.
* `System.Ahead`: a participant that has delivered an image that no frame has asked for.
* `System.Attends.missing`: whose image is missing from a frame.
* `Coordinator.fixed`: what no operation changes.
* `Phase.Took`, `System.Remembers`: what the coordinator keeps.
-/

namespace SortLast

/-! ### What time does to a seat -/

namespace Seat

variable {may : Command → Prop} {keeps : List UInt8 → List UInt8 → Prop} {a b c : Seat}

/-- The slot is empty until an image is delivered, and holds the latest one then, and a worker that
reads has not noted its end. -/
structure Holds (a : Seat) : Prop where
  number : a.slot.map SlotEntry.frame =
    if a.worker.delivered = 0 then none else some a.worker.delivered
  reads : a.worker.phase.Reads → a.worker.alive

theorem Holds.frame (h : a.Holds) {e : SlotEntry} (he : a.slot = some e) :
    e.frame = a.worker.delivered := by
  have hnumber := h.number
  rw [he] at hnumber
  split at hnumber
  · cases hnumber
  · exact Option.some.inj hnumber

theorem Holds.delivered (h : a.Holds) (hs : a.slot = none) : a.worker.delivered = 0 := by
  have hnumber := h.number
  rw [hs] at hnumber
  by_contra hne
  rw [if_neg hne] at hnumber
  cases hnumber

theorem putProxy_slot (a : Seat) (q : Proxy) : (a.putProxy q).slot = a.slot := by
  unfold putProxy
  split <;> rfl

theorem Holds.putProxy (h : a.Holds) (q : Proxy) : (a.putProxy q).Holds := by
  unfold Seat.putProxy
  split <;> exact ⟨h.number, h.reads⟩

/-- A slot changes when an image is stored, and only then. -/
theorem Step.stored (h : Step may keeps a b) :
    (b.slot = a.slot ∧ b.worker.delivered = a.worker.delivered) ∨
      ∃ image, a.worker.phase = .storing image ∧ b.slot = some ⟨a.worker.delivered + 1, image⟩ ∧
        b.worker.delivered = a.worker.delivered + 1 := by
  cases h with
  | send | exit | close => exact .inl ⟨putProxy_slot a _, putProxy_delivered a _⟩
  | work hw =>
    cases hw with
    | receive | meet => exact .inl ⟨rfl, rfl⟩
    | store hph => exact .inr ⟨_, hph, rfl, rfl⟩
    | fail _ hd => exact .inl ⟨rfl, hd⟩
  | _ => exact .inl ⟨rfl, rfl⟩

theorem Step.holds (h : Step may keeps a b) (ha : a.Holds) : b.Holds := by
  cases h with
  | stay => exact ha
  | send | exit | close => exact ha.putProxy _
  | shut | deliver | hangUp => exact ⟨ha.number, ha.reads⟩
  | work hw =>
    cases hw with
    | receive hph => exact ⟨ha.number, fun _ => ha.reads (by rw [hph]; trivial)⟩
    | store hph => exact ⟨rfl, fun _ => ha.reads (by rw [hph]; trivial)⟩
    | meet hph =>
      refine ⟨ha.number, fun _ => ha.reads ?_⟩
      rcases hph with hph | ⟨g, hph⟩ <;> rw [hph] <;> trivial
    | fail hr hd =>
      refine ⟨?_, fun h => absurd h hr⟩
      show a.slot.map SlotEntry.frame = _
      rw [hd]
      exact ha.number

/-- Seat `b` is what may become of seat `a`. -/
structure Before (a b : Seat) : Prop where
  delivered : a.worker.delivered ≤ b.worker.delivered
  slot : b.worker.delivered = a.worker.delivered → b.slot = a.slot
  connected : b.proxy.isConnected → a.proxy.isConnected
  alive : b.worker.alive → a.worker.alive
  ended : a.worker.alive = false → b.worker.delivered = a.worker.delivered

theorem Before.refl (a : Seat) : a.Before a :=
  ⟨Nat.le_refl _, fun _ => rfl, id, id, fun _ => rfl⟩

theorem Before.trans (h : a.Before b) (h' : b.Before c) : a.Before c where
  delivered := h.delivered.trans h'.delivered
  slot hd := by
    have hle := h.delivered
    have hle' := h'.delivered
    rw [h'.slot (by omega), h.slot (by omega)]
  connected hc := h.connected (h'.connected hc)
  alive hc := h.alive (h'.alive hc)
  ended ha := by
    have hb : b.worker.alive = false := Bool.eq_false_iff.2 fun hb => by
      rw [h.alive hb] at ha
      cases ha
    rw [h'.ended hb, h.ended ha]

theorem Step.before (h : Step may keeps a b) (ha : a.Holds) : a.Before b := by
  refine ⟨h.delivered_le, ?_, h.isConnected, h.alive, ?_⟩
  · intro hd
    rcases h.stored with ⟨hs, -⟩ | ⟨image, -, -, hmore⟩
    · exact hs
    · omega
  · intro hdead
    rcases h.stored with ⟨-, hd⟩ | ⟨image, hph, -, -⟩
    · exact hd
    · rw [ha.reads (by rw [hph]; trivial)] at hdead
      cases hdead

end Seat

namespace System

variable {s t u : System} {keeps keeps' : Behaviour} {p : Nat} {a : Seat} {view : View}

/-- Every slot holds the latest image of its participant. -/
def Filed (s : System) : Prop := ∀ p a, s.Sits p a → a.Holds

theorem Filed.step (h : s.Filed) (hs : s.Steady) (hstep : Step keeps s t) : t.Filed := by
  obtain ⟨may, hc⟩ := hstep.changes
  intro p b hb
  obtain ⟨a, ha, hseat⟩ := hc.back hs.seated hb
  exact hseat.holds (h p a ha)

theorem Filed.run (h : s.Filed) (hs : s.Steady) (hrun : Run keeps s t) : t.Filed := by
  induction hrun with
  | refl => exact h
  | tail hrun hstep ih => exact ih.step (hs.run hrun) hstep

theorem filed_of_ofPlan {config : ClusterConfig} {plan : Plan} {connections : List Connection}
    (h : System.ofPlan config plan connections = .ok s) : s.Filed := by
  intro p a ha
  obtain ⟨c, -, rfl⟩ := ha.exists_connection h
  exact ⟨rfl, fun _ => rfl⟩

theorem Run.seat (hrun : Run keeps s t) (hs : s.Steady) (hf : s.Filed) (ha : s.Sits p a) :
    ∃ b, t.Sits p b ∧ a.Before b := by
  induction hrun with
  | refl => exact ⟨a, ha, .refl a⟩
  | tail hrun hstep ih =>
    obtain ⟨b, hb, hbefore⟩ := ih
    obtain ⟨may, hc⟩ := hstep.changes
    obtain ⟨c, hc, hseat⟩ := hc.seat p b hb
    exact ⟨c, hc, hbefore.trans (hseat.before (hf.run hs hrun p b hb))⟩

/-- Participants that keep to a behaviour keep to a more liberal one. -/
theorem Run.mono (h : Run keeps s t) (hk : ∀ p accepted sent, keeps p accepted sent →
    keeps' p accepted sent) : Run keeps' s t := by
  induction h with
  | refl => exact .refl _
  | tail _ hstep ih =>
    obtain ⟨m, hm, hkeeps⟩ := hstep
    exact ih.tail (.mk m hm fun p bytes hd all hall => hk _ _ _ (hkeeps p bytes hd all hall))

/-- Moves of an operation are a run. -/
theorem Within.toRun (h : Within keeps s t) : Run keeps s t := by
  induction h with
  | refl => exact .refl _
  | tail _ _ hstep ih => exact ih.tail hstep

/-- A call is a run of the same behaviour. -/
theorem Within.call {op : Operation} (h : Within keeps (s.start op) t) (hidle : s.phase = .idle) :
    Run keeps s t := ((Run.refl s).tail (step_start hidle op)).trans h.toRun

/-! ### Images that were not asked for -/

/-- The participant has delivered an image for a frame that has not begun. -/
def Ahead (s : System) (p : Nat) : Prop :=
  ∃ e, s.pool.slots.get p = some e ∧ s.coordinator.frameIndex < e.frame

theorem Sits.ahead_iff (ha : s.Sits p a) (hf : a.Holds) :
    s.Ahead p ↔ s.coordinator.frameIndex < a.worker.delivered := by
  rw [Ahead, ha.get]
  constructor
  · rintro ⟨e, he, hlt⟩
    rwa [hf.frame he] at hlt
  · intro hlt
    cases hslot : a.slot with
    | none =>
      rw [hf.delivered hslot] at hlt
      exact absurd hlt (Nat.not_lt_zero _)
    | some e =>
      rw [← hf.frame hslot] at hlt
      exact ⟨e, rfl, hlt⟩

/-- A participant that serves a session delivers nothing that it was not asked for. -/
theorem Conduct.not_ahead {ps : Participants} (h : Conduct ps s) (p : Nat) : ¬ s.Ahead p := by
  rintro ⟨e, he, hlt⟩
  have hslot : s.pool.slots.entries[p]? = some (some e) := Option.join_eq_some_iff.1 he
  obtain ⟨a, ha, hslot⟩ := h.sits_of_slot hslot
  obtain ⟨cs, hlink, hcount⟩ := h.linked p a ha
  have hle := hlink.delivered_le
  rcases hlink.slot_cases with ⟨-, hnone⟩ | ⟨k, i, hk, -, hsome⟩
  · cases hnone.symm.trans hslot
  · obtain rfl := Option.some.inj (hsome.symm.trans hslot)
    change s.coordinator.frameIndex < k + 1 at hlt
    omega

theorem fresh_of_get {l : Slots} {e : SlotEntry} (h : l.get p = some e) :
    l.fresh p e.frame = some e.image := by
  rw [Slots.fresh, h]
  exact if_pos rfl

theorem get_of_fresh {l : Slots} {k : Nat} {image : Image} (h : l.fresh p k = some image) :
    l.get p = some ⟨k, image⟩ := by
  rw [Slots.get, fresh_eq_some h]
  rfl

/-- After the images were waited for, an image of the frame is missing because the participant's worker
has noted its end, or because it has delivered a later one already. -/
theorem Attends.missing (h : s.Attends) (hph : s.phase.Away) (ha : s.Sits p a) (hf : a.Holds)
    (hframe : 0 < s.coordinator.frameIndex)
    (hfresh : s.pool.slots.fresh p s.coordinator.frameIndex = none) :
    a.worker.alive = false ∨ s.Ahead p := by
  cases halive : a.worker.alive with
  | false => exact .inl rfl
  | true =>
    rw [ha.ahead_iff hf]
    have hle := (h.muster.fits p _ ha.worker).le_delivered halive
    rw [← hph.counted.1 h.counted] at hle
    refine .inr (Nat.lt_of_le_of_ne hle fun heq => ?_)
    -- the image in the slot would be fresh
    cases hslot : a.slot with
    | none =>
      rw [hf.delivered hslot] at heq
      omega
    | some e =>
      have hget : s.pool.slots.get p = some e := ha.get.trans hslot
      have hsome := fresh_of_get hget
      rw [hf.frame hslot, ← heq, hfresh] at hsome
      cases hsome

end System

/-! ### What no operation changes -/

/-- What no operation changes. -/
def Coordinator.fixed (c : Coordinator) : Partition × Compositor × PartialFramePolicy :=
  (c.partition, c.compositor, c.config.policy)

namespace System

variable {s t u : System} {keeps : Behaviour} {p : Nat} {a : Seat} {view : View}

theorem fixed_of_books {c d e : Coordinator} (h : d.books = e) (he : e.fixed = c.fixed) :
    d.fixed = c.fixed := by
  rw [← he, ← h]
  rfl

theorem Turn.fixed (h : Turn s t) : t.coordinator.fixed = s.coordinator.fixed := by
  obtain ⟨_, _, _, hbooks⟩ := h.books_eq
  exact fixed_of_books hbooks rfl

theorem start_fixed (s : System) (op : Operation) :
    (s.start op).coordinator.fixed = s.coordinator.fixed ∧
      (s.start op).coordinator.lastImages = s.coordinator.lastImages := by
  unfold start
  split
  · exact ⟨rfl, rfl⟩
  · exact ⟨rfl, rfl⟩
  · split
    · exact ⟨rfl, rfl⟩
    · simp only
      split <;> exact ⟨rfl, rfl⟩
  · exact ⟨rfl, rfl⟩
  · split <;> exact ⟨rfl, rfl⟩

theorem Step.fixed (h : Step keeps s t) : t.coordinator.fixed = s.coordinator.fixed := by
  rcases step_cases h with ⟨hturn, -⟩ | ⟨-, -, op, rfl, -⟩ | ⟨-, hbooks, -⟩
  · exact hturn.fixed
  · exact (start_fixed s op).1
  · exact fixed_of_books hbooks.books rfl

theorem Run.fixed (h : Run keeps s t) : t.coordinator.fixed = s.coordinator.fixed := by
  induction h with
  | refl => rfl
  | tail _ hstep ih => exact hstep.fixed.trans ih

end System

/-! ### What the coordinator keeps -/

namespace Phase

/-- The image of the participant was taken for the latest frame. -/
def Took : Phase → Nat → Prop
  | sending .., _ | meeting .., _ | awaiting .., _ | judging .., _ | checking .., _ | evicting .., _
  | rejoining .., _ | reawaiting .., _ | collecting .., _ => False
  | gathering _ _ _ rest _, p => p ∉ rest
  | _, _ => True

variable {f : Phase} {view : View} {p : Nat}

theorem Waits.not_took (h : f.Waits view) (p : Nat) : ¬ f.Took p := by
  cases f with
  | idle | reaping | surveying | sending | gathering | broadcasting | exiting | closing
  | closingBarrier | joining | crashed => exact h.elim
  | _ => exact id

/-- An image that is stored is for the frame that is waited for, or for a later one. -/
theorem Counted.stored {frame g : Nat} (h : f.Counted frame g) :
    ¬ (g + 1 < frame ∨ g + 1 = frame ∧ f.Took p) := by
  cases f with
  | sending | meeting | judging | checking | evicting | rejoining =>
    rw [show frame = g + 1 from h]
    rintro (hlt | ⟨-, htook⟩)
    · exact Nat.lt_irrefl _ hlt
    · exact htook
  | awaiting _ k | reawaiting _ k =>
    obtain ⟨hframe, hk⟩ := h
    rintro (hlt | ⟨-, htook⟩)
    · omega
    · exact htook
  | _ =>
    rw [show frame = g from h]
    omega

end Phase

namespace System

variable {s t u : System} {keeps : Behaviour} {p : Nat} {a : Seat} {view : View}

/-- What the coordinator keeps for a participant is in its slot, unless that holds an image that is still
to be taken. -/
structure Remembers (s : System) : Prop where
  size : s.coordinator.lastImages.length = s.pool.slots.size
  empty : ∀ p, s.pool.slots.get p = none → s.coordinator.lastImages[p]?.join = none
  latest : ∀ p e, s.pool.slots.get p = some e →
    (e.frame < s.coordinator.frameIndex ∨ e.frame = s.coordinator.frameIndex ∧ s.phase.Took p) →
    s.coordinator.lastImages[p]?.join = some e.image

theorem lastImages_of_books (h : t.coordinator.books = s.coordinator.books) :
    t.coordinator.lastImages = s.coordinator.lastImages := by
  have hlast := congrArg Coordinator.lastImages h
  exact hlast

theorem lt_of_get {l : Slots} {e : SlotEntry} (h : l.get p = some e) : p < l.size :=
  (List.getElem?_eq_some_iff.1 (Option.join_eq_some_iff.1 h)).1

/-- Nothing is stored and nothing is taken. -/
theorem Remembers.kept (h : s.Remembers) (hs : t.pool.slots = s.pool.slots)
    (hlast : t.coordinator.lastImages = s.coordinator.lastImages)
    (hframe : t.coordinator.frameIndex = s.coordinator.frameIndex)
    (htook : ∀ p < s.pool.slots.size, t.phase.Took p → s.phase.Took p) : t.Remembers := by
  refine ⟨by rw [hs, hlast]; exact h.size, by rw [hs, hlast]; exact h.empty, ?_⟩
  rw [hs, hlast, hframe]
  exact fun p e he hold => h.latest p e he (hold.imp_right fun ht => ⟨ht.1, htook p (lt_of_get he) ht.2⟩)

/-- The image of a participant is taken. -/
theorem Remembers.gather (h : s.Remembers) {evicted lost rest : List Nat} {g : Gathering}
    (hph : s.phase = .gathering view evicted lost (p :: rest) g) {g' : Gathering}
    (ht : t.phase = .gathering view evicted lost rest g') (hs : t.pool.slots = s.pool.slots)
    (hbooks : t.coordinator.books =
      (s.coordinator.books.gather g p (s.pool.slots.fresh p s.coordinator.frameIndex)).2) :
    t.Remembers := by
  have hframe := congrArg Coordinator.frameIndex hbooks
  change t.coordinator.frameIndex = s.coordinator.frameIndex at hframe
  have hlast := congrArg Coordinator.lastImages hbooks
  change t.coordinator.lastImages = _ at hlast
  have hothers : ∀ q, q ≠ p → t.phase.Took q → s.phase.Took q := by
    intro q hq htook
    rw [ht] at htook
    rw [hph]
    exact fun hmem => (List.mem_cons.1 hmem).elim hq htook
  cases hfresh : s.pool.slots.fresh p s.coordinator.frameIndex with
  | none =>
    rw [hfresh] at hlast
    change t.coordinator.lastImages = s.coordinator.lastImages at hlast
    refine ⟨by rw [hs, hlast]; exact h.size, by rw [hs, hlast]; exact h.empty, ?_⟩
    rw [hs, hlast, hframe]
    refine fun q e he hold => h.latest q e he (hold.imp_right fun htook => ⟨htook.1, ?_⟩)
    by_cases hq : q = p
    · subst hq
      have hsome := fresh_of_get he
      rw [htook.1, hfresh] at hsome
      cases hsome
    · exact hothers q hq htook.2
  | some image =>
    rw [hfresh] at hlast
    change t.coordinator.lastImages = s.coordinator.lastImages.set p (some image) at hlast
    have hget := get_of_fresh hfresh
    have hlt : p < s.coordinator.lastImages.length := by
      rw [h.size]
      exact lt_of_get hget
    refine ⟨by rw [hs, hlast, List.length_set]; exact h.size, fun q hq => ?_, fun q e he hold => ?_⟩
    · rw [hs] at hq
      have hne : q ≠ p := by
        rintro rfl
        cases hget.symm.trans hq
      rw [hlast, List.getElem?_set_ne hne.symm]
      exact h.empty q hq
    · rw [hs] at he
      by_cases hq : q = p
      · subst hq
        obtain rfl := Option.some.inj (hget.symm.trans he)
        rw [hlast, List.getElem?_set_self hlt]
        rfl
      · rw [hlast, List.getElem?_set_ne (Ne.symm hq)]
        rw [hframe] at hold
        exact h.latest q e he (hold.imp_right fun htook => ⟨htook.1, hothers q hq htook.2⟩)

/-- A turn of the coordinator. Images are taken from everybody before a frame ends. -/
theorem Remembers.turn (h : s.Remembers) (hturn : Turn s t) (hs : t.pool.slots = s.pool.slots)
    (hopen : s.pool.barrier.closed = false)
    (hall : ∀ eye, ∀ p < s.pool.slots.size,
      p ∈ s.coordinator.partition.ordered eye s.coordinator.compositor.order) : t.Remembers := by
  have hkept := fun hbooks : t.coordinator.books = s.coordinator.books =>
    h.kept hs (lastImages_of_books hbooks) (frameIndex_of_books hbooks)
  cases hturn with
  | reap hph _ same | look hph _ _ same | tell hph _ same | exit hph _ _ same | exited hph _ _ same
  | close hph _ same | join hph _ same =>
    exact hkept same.books fun p _ _ => by rw [hph]; trivial
  | nobody hph _ hbooks | told hph hbooks | joined hph hbooks | closeBarrier hph _ hbooks =>
    exact hkept hbooks fun p _ _ => by rw [hph]; trivial
  | send _ hu same | sent _ hu same =>
    exact hkept same.books fun p _ ht => by rw [hu] at ht; exact ht.elim
  | wait _ hu same => exact hkept same.books fun p _ ht => absurd ht (hu.not_took p)
  | refuse _ hclosed =>
    rw [hopen] at hclosed
    cases hclosed
  | begin hph _ _ hu hbooks =>
    -- the latest frame is an earlier one from now on
    have hframe := congrArg Coordinator.frameIndex hbooks
    have hlast := congrArg Coordinator.lastImages hbooks
    change t.coordinator.frameIndex = s.coordinator.frameIndex + 1 at hframe
    change t.coordinator.lastImages = s.coordinator.lastImages at hlast
    refine ⟨by rw [hs, hlast]; exact h.size, by rw [hs, hlast]; exact h.empty, fun p e he hold => ?_⟩
    rw [hs] at he
    rw [hlast]
    refine h.latest p e he ?_
    rcases hold with hlt | ⟨-, htook⟩
    · rw [hframe] at hlt
      refine (Nat.lt_succ_iff_lt_or_eq.1 hlt).imp_right fun heq => ⟨heq, ?_⟩
      rw [hph]
      trivial
    · rw [hu] at htook
      exact htook.elim
  | collect _ hu same =>
    refine hkept same.books fun p hp ht => ?_
    rw [hu] at ht
    exact absurd (hall _ p hp) ht
  | gather hph hu hbooks => exact h.gather hph hu hs hbooks
  | finish hph hf =>
    obtain ⟨framebuffer, hbooks⟩ := finish_eq hf
    have hframe := congrArg Coordinator.frameIndex hbooks
    have hlast := congrArg Coordinator.lastImages hbooks
    refine h.kept hs hlast hframe fun p _ _ => ?_
    rw [hph]
    exact List.not_mem_nil
  | crash hph _ same =>
    refine hkept same.books fun p _ _ => ?_
    rw [hph]
    exact List.not_mem_nil

/-- A worker stores an image that is still to be taken. -/
theorem Remembers.worker (h : s.Remembers) (hattends : s.Attends) {q : Nat} {pool : Pool}
    (hstep : s.pool.step q = some pool) : Remembers { s with pool } := by
  obtain ⟨w, w', stored, hw, hstepped⟩ := Pool.step_spec hstep
  have hslots := hstepped.slots
  have hone := hstepped.step
  cases hone with
  | store hph =>
    rename_i image
    have hentries : pool.slots = s.pool.slots.store q (w.delivered + 1) image :=
      congrArg Slots.mk hslots
    have hget : ∀ p e, pool.slots.get p = some e →
        s.pool.slots.get p = some e ∨ p = q ∧ e.frame = s.pool.barrier.generation + 1 := by
      intro p e he
      rw [hentries] at he
      by_cases hp : p = q
      · subst hp
        refine .inr ⟨rfl, ?_⟩
        rw [Slots.get, Slots.store, List.getElem?_set_self'] at he
        cases hold : s.pool.slots.entries[p]? with
        | none => simp [hold] at he
        | some old =>
          simp only [hold, Option.map_eq_map, Option.map_some, Function.const_apply, Option.join_some,
            Option.some.injEq] at he
          rw [← he, ← ((hattends.muster.fits p w hw).storing hph).2]
      · rw [Slots.get, Slots.store, List.getElem?_set_ne (Ne.symm hp)] at he
        exact .inl he
    refine ⟨?_, fun p hp => h.empty p ?_, fun p e he hold => ?_⟩
    · show s.coordinator.lastImages.length = pool.slots.size
      rw [h.size, hentries, Slots.size, Slots.size, Slots.store, List.length_set]
    · change pool.slots.get p = none at hp
      rw [hentries, Slots.get, Slots.store] at hp
      by_cases hpq : p = q
      · subst hpq
        rw [List.getElem?_set_self'] at hp
        cases hold : s.pool.slots.entries[p]? with
        | none => rw [Slots.get, hold]; rfl
        | some old => simp [hold] at hp
      · rwa [List.getElem?_set_ne (Ne.symm hpq)] at hp
    · rcases hget p e he with he | ⟨rfl, hframe⟩
      · exact h.latest p e he hold
      · rw [hframe] at hold
        exact absurd hold hattends.counted.stored
  | receive | meet | fail =>
    have hsame : pool.slots = s.pool.slots := congrArg Slots.mk hslots
    exact h.kept hsame rfl rfl fun p _ => id

theorem Begins.frameIndex {op : Operation} (h : Begins s t op) :
    t.coordinator.frameIndex = s.coordinator.frameIndex := by
  cases h with
  | render ht => rw [ht]; rfl
  | other hframe => exact hframe

/-- Every move keeps the invariant, as long as the barrier is open. -/
theorem Remembers.step (h : s.pool.barrier.closed = false → s.Remembers)
    (hattends : s.pool.barrier.closed = false → s.Attends)
    (hall : ∀ eye, ∀ p < s.pool.slots.size,
      p ∈ s.coordinator.partition.ordered eye s.coordinator.compositor.order)
    (hstep : Step keeps s t) (hopen : t.pool.barrier.closed = false) : t.Remembers := by
  rcases step_tends hstep with htends | ⟨q, pool, hpool, rfl⟩
  · rcases step_moves hstep with ha | he | ⟨hidle, op, rfl⟩ | ⟨hph, hbooks, -⟩
    · have hwas : s.pool.barrier.closed = false := Bool.eq_false_iff.2 fun hs => by
        rw [closed_of_turn (advance_turn ha) (.inl ha) hs] at hopen
        cases hopen
      exact (h hwas).turn (advance_turn ha) htends.slots hwas hall
    · have hwas : s.pool.barrier.closed = false := Bool.eq_false_iff.2 fun hs => by
        rw [closed_of_turn (expire_turn he) (.inr he) hs] at hopen
        cases hopen
      exact (h hwas).turn (expire_turn he) htends.slots hwas hall
    · rw [start_barrier] at hopen
      refine (h hopen).kept htends.slots (start_fixed s op).2 (start_begins s op).frameIndex
        fun p _ _ => ?_
      rw [hidle]
      trivial
    · rw [hbooks.closed] at hopen
      refine (h hopen).kept htends.slots (lastImages_of_books hbooks.books)
        (frameIndex_of_books hbooks.books) fun p _ ht => ?_
      rwa [hph] at ht
  · obtain ⟨w, w', stored, -, hstepped⟩ := Pool.step_spec hpool
    change pool.barrier.closed = false at hopen
    rw [hstepped.closed] at hopen
    exact (h hopen).worker (hattends hopen) hpool

/-- In a cluster that was set up nothing is in the slots. -/
theorem get_of_ofPlan {config : ClusterConfig} {plan : Plan} {connections : List Connection}
    (h : System.ofPlan config plan connections = .ok s) (p : Nat) : s.pool.slots.get p = none := by
  obtain ⟨-, -, hpool, -, -⟩ := ofPlan_eq h
  rw [hpool, Slots.get, Pool.ofInboxes, Slots.ofCount, List.getElem?_replicate]
  split <;> rfl

theorem remembers_of_ofPlan {config : ClusterConfig} {plan : Plan} {connections : List Connection}
    (h : System.ofPlan config plan connections = .ok s) : s.Remembers := by
  have hempty := get_of_ofPlan h
  obtain ⟨-, hframe, hpool, -, -⟩ := ofPlan_eq h
  have hlast : s.coordinator.lastImages = connections.map fun _ => none := by
    obtain ⟨c, hc, h⟩ := ok_of_bind h
    cases h
    obtain ⟨framebuffer, -, hc⟩ := ok_of_bind hc
    cases hc
    rfl
  refine ⟨?_, fun p _ => ?_, fun p e he => ?_⟩
  · rw [hlast, hpool, Slots.size, Pool.ofInboxes, Slots.ofCount]
    simp
  · rw [hlast, List.getElem?_map]
    cases connections[p]? <;> rfl
  · rw [hempty p] at he
    cases he

end System
end SortLast
