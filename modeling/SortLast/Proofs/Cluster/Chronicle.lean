import Mathlib.Data.Fintype.Card
import SortLast.Proofs.Cluster.Tally

/-!
# A chronicle of the barrier

Parties that share an open barrier arrive, wait, give up and leave in any order. The barrier knows them
by two counters only; the chronicle of a meeting keeps their names, how their waits ended and what
completed each generation.

* `Chronicle`, `Chronicle.Act`, `Chronicle.act`, `Chronicle.after?`: what parties may do, and what is
  kept of it. A party has at most one wait at a time, and one that has left does nothing more.
* `Chronicle.present`, `Chronicle.standing`: the parties that have not left, and those with an arrival in
  the current generation.
* `Chronicle.Event`: the ways in which an act can go; `Chronicle.Consistent.event_of_act`.
* `Chronicle.Consistent`: the invariant; `Chronicle.Consistent.event`, `Chronicle.consistent_of_after`.
* `Chronicle.safe_of_after`: what the counters mean, when generations complete, and how waits end.
-/

namespace SortLast

/-- A wait that is over. -/
structure Return (α : Type) where
  who : α
  generation : Nat
  result : WaitResult
  deriving DecidableEq, Repr

/-- What has completed a generation. -/
inductive Completion (α : Type) where
  | arrival (who : α)
  /-- The departure of the last party that was awaited. -/
  | departure (who : α)
  deriving DecidableEq, Repr

/-- The party that is told to have completed a generation. -/
def Completion.leader? {α : Type} : Completion α → Option α
  | arrival p => some p
  | departure _ => none

/-- A meeting and its history. -/
structure Chronicle (α : Type) where
  /-- The barrier with the parties that wait at it. -/
  meeting : Meeting α
  departed : List α := []
  /-- The waits that are over, in the order of their ends. -/
  returns : List (Return α) := []
  /-- What has completed each generation, from the first one on. -/
  completions : List (Completion α) := []
  deriving DecidableEq, Repr

namespace Chronicle

variable {α : Type} {c d : Chronicle α} {p q : α} {w : Waiter α}

/-- What a party may do. -/
inductive Act (α : Type) where
  | arrive (who : α)
  /-- Look whether its wait is over; it may be woken at any moment, and for nothing. -/
  | wake (w : Waiter α)
  /-- Notice that the time for its wait has run out, which may be at any moment. -/
  | expire (w : Waiter α)
  | leave (who : α)
  deriving DecidableEq, Repr

/-- The generation that is not completed yet. -/
def generation (c : Chronicle α) : Nat := c.meeting.barrier.generation

/-- A party that has not left and does not wait. -/
def Free (c : Chronicle α) (p : α) : Prop := p ∉ c.departed ∧ ∀ w ∈ c.meeting.waiting, w.who ≠ p

/-- Those who have been told that they have completed a generation. -/
def leaders (c : Chronicle α) (g : Nat) : List α :=
  (c.returns.filter fun r => r.generation = g ∧ r.result = .leader).map Return.who

/-- The meeting goes on as `m`, a wait may have ended, and if a generation is complete, then by `cause`. -/
def goOn (c : Chronicle α) (m : Meeting α) (cause : Completion α) (ended : Option (Return α)) :
    Chronicle α :=
  { c with
    meeting := m
    returns := c.returns ++ ended.toList
    completions :=
      if m.barrier.generation = c.generation then c.completions else c.completions ++ [cause] }

theorem goOn_same {m : Meeting α} {cause : Completion α} {ended : Option (Return α)}
    (h : m.barrier.generation = c.generation) :
    c.goOn m cause ended = { c with meeting := m, returns := c.returns ++ ended.toList } := by
  rw [goOn, if_pos h]

theorem goOn_next {m : Meeting α} {cause : Completion α} {ended : Option (Return α)}
    (h : m.barrier.generation = c.generation + 1) :
    c.goOn m cause ended = { c with
      meeting := m
      returns := c.returns ++ ended.toList
      completions := c.completions ++ [cause] } := by
  rw [goOn, if_neg (by omega)]

theorem leaders_concat {r : Return α} (h : d.returns = c.returns ++ [r]) (g : Nat) :
    d.leaders g =
      c.leaders g ++ if r.generation = g ∧ r.result = .leader then [r.who] else [] := by
  rw [leaders, h, List.filter_append, List.map_append, leaders]
  by_cases hr : r.generation = g ∧ r.result = .leader <;> simp [hr]

variable [DecidableEq α]

instance (c : Chronicle α) (p : α) : Decidable (c.Free p) := inferInstanceAs (Decidable (_ ∧ _))

/-- Somebody does something, if that is possible. -/
def act (c : Chronicle α) : Act α → Option (Chronicle α)
  | .arrive p =>
    if c.Free p then
      let (r, m) := c.meeting.arrive p
      some (c.goOn m (.arrival p) (r.map (⟨p, c.generation, ·⟩)))
    else none
  | .wake w =>
    if w ∈ c.meeting.waiting then
      let (r, m) := c.meeting.wake w
      some { c with
        meeting := m, returns := c.returns ++ (r.map (⟨w.who, w.generation, ·⟩)).toList }
    else none
  | .expire w =>
    if w ∈ c.meeting.waiting then
      let (r, m) := c.meeting.expire w
      some { c with meeting := m, returns := c.returns ++ [⟨w.who, w.generation, r⟩] }
    else none
  | .leave p =>
    if c.Free p then
      some { c.goOn c.meeting.leave (.departure p) none with departed := c.departed ++ [p] }
    else none

/-- The chronicle after some acts, if all of them are possible. -/
def after? (c : Chronicle α) : List (Act α) → Option (Chronicle α)
  | [] => some c
  | a :: as => (c.act a).bind fun d => d.after? as

variable [Fintype α]

/-- A barrier for all parties, none of which has arrived. -/
def start (α : Type) [Fintype α] : Chronicle α where
  meeting := { barrier := { parties := Fintype.card α } }

/-- The parties that have not left. -/
def present (c : Chronicle α) : Finset α := Finset.univ.filter (· ∉ c.departed)

/-- The parties with an arrival in the current generation that they have not taken back. -/
def standing (c : Chronicle α) : Finset α :=
  Finset.univ.filter fun p => ⟨p, c.generation⟩ ∈ c.meeting.waiting

theorem mem_present : p ∈ c.present ↔ p ∉ c.departed := by simp [present]

theorem mem_standing : p ∈ c.standing ↔ ⟨p, c.generation⟩ ∈ c.meeting.waiting := by simp [standing]

/-! ### The invariant -/

/-- The barrier agrees with the chronicle. -/
structure Consistent (c : Chronicle α) : Prop where
  tallies : c.meeting.barrier.Tallies c.present.card c.standing.card
  departed : c.departed.Nodup
  waiting : ∀ w ∈ c.meeting.waiting, w.who ∉ c.departed ∧ w.generation ≤ c.generation
  distinct : (c.meeting.waiting.map Waiter.who).Nodup
  completions : c.completions.length = c.generation
  leaders : ∀ g, c.leaders g = ((c.completions[g]?).bind Completion.leader?).toList

/-- The ways in which an act can go. -/
inductive Event (c : Chronicle α) : Act α → Chronicle α → Prop
  | lead {p : α} : c.Free p → c.standing.card + 1 = c.present.card →
      Event c (.arrive p) { c with
        meeting := { c.meeting with barrier := c.meeting.barrier.release }
        returns := c.returns ++ [⟨p, c.generation, .leader⟩]
        completions := c.completions ++ [.arrival p] }
  | join {p : α} {b : Barrier} : c.Free p → b.generation = c.generation →
      b.Tallies c.present.card (c.standing.card + 1) →
      Event c (.arrive p) { c with
        meeting := ⟨b, c.meeting.waiting ++ [⟨p, c.generation⟩]⟩ }
  | idle {w : Waiter α} : w ∈ c.meeting.waiting → w.generation = c.generation → Event c (.wake w) c
  /-- A wait ends because its generation was completed. -/
  | follow {w : Waiter α} {a : Act α} : a = .wake w ∨ a = .expire w → w ∈ c.meeting.waiting →
      w.generation ≠ c.generation →
      Event c a { c with
        meeting := { c.meeting with waiting := c.meeting.waiting.erase w }
        returns := c.returns ++ [⟨w.who, w.generation, .follower⟩] }
  /-- A wait ends because its time has run out. -/
  | withdraw {w : Waiter α} : w ∈ c.meeting.waiting → w.generation = c.generation →
      Event c (.expire w) { c with
        meeting := ⟨c.meeting.barrier.withdraw, c.meeting.waiting.erase w⟩
        returns := c.returns ++ [⟨w.who, w.generation, .failed .timedOut⟩] }
  /-- The departure of the last party that was awaited completes the generation. -/
  | release {p : α} {b : Barrier} : c.Free p → c.standing.card + 1 = c.present.card →
      0 < c.standing.card → b.generation = c.generation + 1 → b.Tallies (c.present.card - 1) 0 →
      Event c (.leave p) { c with
        meeting := { c.meeting with barrier := b }
        departed := c.departed ++ [p]
        completions := c.completions ++ [.departure p] }
  | depart {p : α} {b : Barrier} : c.Free p → b.generation = c.generation →
      b.Tallies (c.present.card - 1) c.standing.card →
      Event c (.leave p) { c with
        meeting := { c.meeting with barrier := b }
        departed := c.departed ++ [p] }

/-- Whoever does not wait is not standing. -/
theorem Consistent.standing_subset (h : c.Consistent) (hp : c.Free p) :
    c.standing ⊆ c.present.erase p := by
  intro q hq
  rw [mem_standing] at hq
  exact Finset.mem_erase.2 ⟨hp.2 _ hq, mem_present.2 (h.waiting _ hq).1⟩

theorem Consistent.standing_lt (h : c.Consistent) (hp : c.Free p) :
    c.standing.card < c.present.card :=
  (Finset.card_le_card (h.standing_subset hp)).trans_lt
    (Finset.card_erase_lt_of_mem (mem_present.2 hp.1))

/-- If one is missing, it is the one that does not wait. -/
theorem Consistent.standing_eq (h : c.Consistent) (hp : c.Free p)
    (hcard : c.standing.card + 1 = c.present.card) : c.standing = c.present.erase p := by
  refine Finset.eq_of_subset_of_card_le (h.standing_subset hp) ?_
  rw [Finset.card_erase_of_mem (mem_present.2 hp.1)]
  omega

/-- Nothing else can happen. -/
theorem Consistent.event_of_act (h : c.Consistent) {a : Act α} (ha : c.act a = some d) :
    Event c a d := by
  cases a with
  | arrive p =>
    simp only [act] at ha
    split at ha
    · rename_i hp
      rcases h.tallies.arrive (h.standing_lt hp) with ⟨hcard, harrive⟩ | ⟨-, b, harrive, hb, htallies⟩
      · have hm : c.meeting.arrive p =
            (some .leader, { c.meeting with barrier := c.meeting.barrier.release }) := by
          rw [Meeting.arrive, harrive]
        rw [hm, goOn_next rfl] at ha
        cases ha
        exact .lead hp hcard
      · have hm : c.meeting.arrive p = (none, ⟨b, c.meeting.waiting ++ [⟨p, c.generation⟩]⟩) := by
          rw [Meeting.arrive, harrive]
          rfl
        rw [hm, goOn_same hb] at ha
        simp only [Option.map_none, Option.toList_none, List.append_nil, Option.some.injEq] at ha
        subst ha
        exact .join hp hb htallies
    · cases ha
  | wake w =>
    simp only [act] at ha
    split at ha
    · rename_i hw
      rw [Meeting.wake, h.tallies.poll] at ha
      by_cases hg : c.meeting.barrier.generation = w.generation
      · rw [if_pos hg] at ha
        simp only [Option.map_none, Option.toList_none, List.append_nil, Option.some.injEq] at ha
        subst ha
        exact .idle hw hg.symm
      · rw [if_neg hg] at ha
        cases ha
        exact .follow (.inl rfl) hw (Ne.symm hg)
    · cases ha
  | expire w =>
    simp only [act] at ha
    split at ha
    · rename_i hw
      rw [Meeting.expire] at ha
      by_cases hg : c.meeting.barrier.generation = w.generation
      · rw [← hg, h.tallies.expire_current.1, hg] at ha
        cases ha
        exact .withdraw hw hg.symm
      · rw [h.tallies.expire_past hg] at ha
        cases ha
        exact .follow (.inr rfl) hw (Ne.symm hg)
    · cases ha
  | leave p =>
    simp only [act] at ha
    split at ha
    · rename_i hp
      rcases h.tallies.leave (h.standing_lt hp) with
        ⟨hpos, hcard, hb, htallies⟩ | ⟨hb, htallies⟩
      · rw [goOn_next hb] at ha
        simp only [Option.toList_none, List.append_nil, Option.some.injEq] at ha
        subst ha
        exact .release hp hcard hpos hb htallies
      · rw [goOn_same hb] at ha
        simp only [Option.toList_none, List.append_nil, Option.some.injEq] at ha
        subst ha
        exact .depart hp hb htallies
    · cases ha

/-! ### One act after the other -/

theorem present_depart (h : d.departed = c.departed ++ [p]) : d.present = c.present.erase p := by
  ext q
  rw [Finset.mem_erase, mem_present, mem_present, h, List.mem_append, List.mem_singleton, not_or,
    and_comm]

theorem standing_congr (hg : d.generation = c.generation)
    (hw : d.meeting.waiting = c.meeting.waiting) : d.standing = c.standing := by
  rw [standing, hg, hw, standing]

/-- A new generation begins with nobody. -/
theorem standing_next (h : c.Consistent) (hg : d.generation = c.generation + 1)
    (hw : d.meeting.waiting = c.meeting.waiting) : d.standing = ∅ := by
  ext q
  rw [mem_standing, hg, hw]
  refine iff_of_false (fun hq => ?_) (Finset.notMem_empty q)
  exact Nat.not_succ_le_self _ (h.waiting _ hq).2

theorem standing_join (hg : d.generation = c.generation)
    (hw : d.meeting.waiting = c.meeting.waiting ++ [⟨p, c.generation⟩]) :
    d.standing = insert p c.standing := by
  ext q
  rw [Finset.mem_insert, mem_standing, mem_standing, hg, hw, List.mem_append, List.mem_singleton,
    or_comm]
  simp

theorem Consistent.nodup (h : c.Consistent) : c.meeting.waiting.Nodup := h.distinct.of_map _

/-- The end of a wait from an earlier generation makes no difference. -/
theorem standing_follow (hwait : w.generation ≠ c.generation) (hg : d.generation = c.generation)
    (hw : d.meeting.waiting = c.meeting.waiting.erase w) : d.standing = c.standing := by
  ext q
  rw [mem_standing, mem_standing, hg, hw]
  refine List.mem_erase_of_ne fun heq => ?_
  rw [← heq] at hwait
  exact hwait rfl

/-- Who takes an arrival back is not standing any more. -/
theorem standing_withdraw (h : c.Consistent) (hwait : w.generation = c.generation)
    (hg : d.generation = c.generation) (hw : d.meeting.waiting = c.meeting.waiting.erase w) :
    d.standing = c.standing.erase w.who := by
  ext q
  rw [Finset.mem_erase, mem_standing, mem_standing, hg, hw, h.nodup.mem_erase_iff]
  obtain ⟨who, generation⟩ := w
  obtain rfl : generation = c.generation := hwait
  simp

/-- Whoever waits in the current generation is standing. -/
theorem mem_standing_of_waiting (hw : w ∈ c.meeting.waiting)
    (hg : w.generation = c.generation) : w.who ∈ c.standing := by
  rw [mem_standing, ← hg]
  exact hw

/-- The end of a wait keeps what is known of the others. -/
theorem Consistent.erase (h : c.Consistent) (w : Waiter α) :
    (∀ v ∈ c.meeting.waiting.erase w, v.who ∉ c.departed ∧ v.generation ≤ c.generation) ∧
      ((c.meeting.waiting.erase w).map Waiter.who).Nodup :=
  ⟨fun v hv => h.waiting v (List.mem_of_mem_erase hv),
    h.distinct.sublist (List.erase_sublist.map _)⟩

/-- A departure keeps what is known of those that wait. -/
theorem Consistent.depart (h : c.Consistent) (hp : c.Free p) :
    (c.departed ++ [p]).Nodup ∧
      ∀ w ∈ c.meeting.waiting, w.who ∉ c.departed ++ [p] ∧ w.generation ≤ c.generation := by
  refine ⟨?_, fun w hw => ⟨?_, (h.waiting w hw).2⟩⟩
  · rw [← List.concat_eq_append]
    exact h.departed.concat hp.1
  · rw [List.mem_append, List.mem_singleton, not_or]
    exact ⟨(h.waiting w hw).1, hp.2 w hw⟩

/-- The history of completions grows by the cause of the one that is new. -/
theorem Consistent.leaders_next (h : c.Consistent) {cause : Completion α}
    (hd : d.completions = c.completions ++ [cause])
    (hl : ∀ g, d.leaders g = c.leaders g ++ if c.generation = g then cause.leader?.toList else [])
    (g : Nat) : d.leaders g = ((d.completions[g]?).bind Completion.leader?).toList := by
  rw [hl, h.leaders, hd, ← h.completions]
  rcases Nat.lt_trichotomy g c.completions.length with hlt | rfl | hgt
  · rw [List.getElem?_append_left hlt, if_neg (by omega), List.append_nil]
  · simp
  · rw [List.getElem?_eq_none (by omega), List.getElem?_eq_none (by simp; omega), if_neg (by omega)]
    rfl

/-- Every act keeps the chronicle consistent. -/
theorem Consistent.event (h : c.Consistent) {a : Act α} (he : Event c a d) : d.Consistent := by
  cases he with
  | @lead p hp hcard =>
    refine ⟨?_, h.departed, ?_, h.distinct, ?_, h.leaders_next rfl fun g => ?_⟩
    · rw [standing_next h]
      · exact h.tallies.release
      · rfl
      · rfl
    · exact fun w hw => ⟨(h.waiting w hw).1, Nat.le_succ_of_le (h.waiting w hw).2⟩
    · rw [List.length_append, h.completions]
      rfl
    · rw [leaders_concat rfl]
      simp [Completion.leader?]
  | @join p b hp hb htallies =>
    refine ⟨?_, h.departed, ?_, ?_, h.completions.trans hb.symm, h.leaders⟩
    · rw [standing_join, Finset.card_insert_of_notMem]
      · exact htallies
      · exact fun hstands => hp.2 _ (mem_standing.1 hstands) rfl
      · exact hb
      · rfl
    · intro w hw
      rcases List.mem_append.1 hw with hw | hw
      · exact ⟨(h.waiting w hw).1, (h.waiting w hw).2.trans_eq hb.symm⟩
      · obtain rfl := List.mem_singleton.1 hw
        exact ⟨hp.1, hb.ge⟩
    · rw [List.map_append, List.nodup_append]
      refine ⟨h.distinct, List.nodup_singleton _, ?_⟩
      intro x hx y hy
      obtain ⟨w, hw, rfl⟩ := List.mem_map.1 hx
      rw [List.mem_singleton.1 hy]
      exact hp.2 w hw
  | idle => exact h
  | @follow w a _ hw hg =>
    obtain ⟨hwaiting, hdistinct⟩ := h.erase w
    refine ⟨?_, h.departed, hwaiting, hdistinct, h.completions, fun g => ?_⟩
    · rw [standing_follow hg]
      · exact h.tallies
      · rfl
      · rfl
    · rw [leaders_concat rfl, ← h.leaders]
      simp
  | @withdraw w hw hg =>
    obtain ⟨hwaiting, hdistinct⟩ := h.erase w
    refine ⟨?_, h.departed, hwaiting, hdistinct, h.completions, fun g => ?_⟩
    · rw [standing_withdraw h hg, Finset.card_erase_of_mem]
      · exact h.tallies.expire_current.2
      · exact mem_standing_of_waiting hw hg
      · rfl
      · rfl
    · rw [leaders_concat rfl, ← h.leaders]
      simp
  | @release p b hp hcard hpos hb htallies =>
    obtain ⟨hdeparted, hwaiting⟩ := h.depart hp
    refine ⟨?_, hdeparted, ?_, h.distinct, ?_, h.leaders_next rfl fun g => ?_⟩
    · rw [standing_next h, present_depart, Finset.card_erase_of_mem (mem_present.2 hp.1)]
      · exact htallies
      · rfl
      · exact hb
      · rfl
    · exact fun w hw => ⟨(hwaiting w hw).1, (Nat.le_succ_of_le (hwaiting w hw).2).trans_eq hb.symm⟩
    · rw [List.length_append, h.completions]
      exact hb.symm
    · show c.leaders g = _
      simp [Completion.leader?]
  | @depart p b hp hb htallies =>
    obtain ⟨hdeparted, hwaiting⟩ := h.depart hp
    refine ⟨?_, hdeparted, ?_, h.distinct, h.completions.trans hb.symm, h.leaders⟩
    · rw [standing_congr, present_depart, Finset.card_erase_of_mem (mem_present.2 hp.1)]
      · exact htallies
      · rfl
      · exact hb
      · rfl
    · exact fun w hw => ⟨(hwaiting w hw).1, (hwaiting w hw).2.trans_eq hb.symm⟩

theorem consistent_start : (start α).Consistent := by
  refine ⟨?_, List.nodup_nil, fun w hw => absurd hw List.not_mem_nil, List.nodup_nil, rfl,
    fun g => rfl⟩
  have hpresent : (start α).present = Finset.univ := by
    ext p
    simp [mem_present, start]
  have hstanding : (start α).standing = ∅ := by
    ext p
    simp [mem_standing, start]
  rw [hpresent, hstanding]
  exact Barrier.Tallies.start _

/-- The induction is on the acts, the first of which comes first, so that the beginning varies. -/
theorem consistent_of_after {acts : List (Act α)} (h : c.Consistent)
    (hacts : c.after? acts = some d) : d.Consistent := by
  induction acts generalizing c with
  | nil => cases hacts; exact h
  | cons a as ih =>
    obtain ⟨e, ha, has⟩ := Option.bind_eq_some_iff.1 hacts
    exact ih (h.event (h.event_of_act ha)) has

/-! ### What the invariant says -/

theorem card_present (h : c.departed.Nodup) : c.present.card + c.departed.length = Fintype.card α := by
  have hcompl : c.present = c.departed.toFinsetᶜ := by
    ext p
    simp [mem_present]
  rw [hcompl, ← List.toFinset_card_of_nodup h, Finset.card_compl_add_card]

/-- An act of one party completes a generation, by its arrival or by its departure. All others that have
not left are standing. -/
def Completes (c : Chronicle α) (a : Act α) (d : Chronicle α) : Prop :=
  d.generation = c.generation + 1 ∧ ∃ p,
    ((a = .arrive p ∧ d.completions = c.completions ++ [.arrival p]) ∨
      (a = .leave p ∧ d.completions = c.completions ++ [.departure p] ∧ 0 < c.standing.card)) ∧
    ∀ q ∈ d.present, q ∈ c.standing ∨ a = .arrive q

/-- A wait ends between two moments: well just if the generation it arrived in is complete, and
otherwise its arrival is taken back. -/
structure Ends (c d : Chronicle α) (r : Return α) : Prop where
  well : r.result = .leader ∨ r.result = .follower ↔ r.generation < d.generation
  badly : ∀ e, r.result = .failed e → e = .timedOut ∧ d.generation = c.generation ∧
    r.generation = c.generation ∧ r.who ∈ c.standing ∧ d.standing = c.standing.erase r.who

/-- What holds of a meeting at any moment. -/
structure Safe (c : Chronicle α) : Prop where
  /-- The barrier counts the standing arrivals. -/
  arrived : c.meeting.barrier.arrived = c.standing.card
  /-- The barrier counts the parties that have not left; nobody leaves twice. -/
  parties : c.meeting.barrier.parties + c.departed.length = Fintype.card α ∧ c.departed.Nodup
  /-- The standing arrivals are never all. -/
  below : c.meeting.barrier.arrived = 0 ∨ c.meeting.barrier.arrived < c.meeting.barrier.parties
  /-- Nobody takes an arrival back that is not counted. -/
  counted : ∀ w ∈ c.meeting.waiting, c.meeting.barrier.poll w.generation = none →
    0 < c.meeting.barrier.arrived
  /-- A generation completes only when all that have not left are standing. -/
  completes : ∀ a d, c.act a = some d → d.generation ≠ c.generation → c.Completes a d
  /-- Nothing else is recorded. -/
  recorded : c.completions.length = c.generation
  /-- At most one wait ends by one act. -/
  returns : ∀ a d, c.act a = some d → ∃ ended : Option (Return α),
    d.returns = c.returns ++ ended.toList ∧ ∀ r ∈ ended, c.Ends d r
  /-- Whoever looks whether its wait is over learns just whether its generation is complete. -/
  wakes : ∀ w ∈ c.meeting.waiting,
    (c.meeting.wake w).1 = if w.generation < c.generation then some .follower else none
  /-- If an arrival has completed a generation, then one wait has ended with this news, and if a
  departure has, then none. -/
  leaders : ∀ g, c.leaders g = ((c.completions[g]?).bind Completion.leader?).toList

theorem Consistent.completes (h : c.Consistent) {a : Act α} (he : Event c a d)
    (hg : d.generation ≠ c.generation) : c.Completes a d := by
  cases he with
  | @lead p hp hcard =>
    refine ⟨rfl, p, .inl ⟨rfl, rfl⟩, fun q hq => ?_⟩
    rw [h.standing_eq hp hcard, Finset.mem_erase]
    by_cases hqp : q = p
    · exact .inr (by rw [hqp])
    · exact .inl ⟨hqp, hq⟩
  | @release p b hp hcard hpos hb =>
    refine ⟨hb, p, .inr ⟨rfl, rfl, hpos⟩, fun q hq => .inl ?_⟩
    rw [h.standing_eq hp hcard, ← present_depart]
    · exact hq
    · rfl
  | join _ hb => exact absurd hb hg
  | depart _ hb => exact absurd hb hg
  | idle => exact absurd rfl hg
  | follow => exact absurd rfl hg
  | withdraw => exact absurd rfl hg

theorem Consistent.returns (h : c.Consistent) {a : Act α} (he : Event c a d) :
    ∃ ended : Option (Return α), d.returns = c.returns ++ ended.toList ∧ ∀ r ∈ ended, c.Ends d r := by
  have hquiet : ∃ ended : Option (Return α),
      c.returns = c.returns ++ ended.toList ∧ ∀ r ∈ ended, c.Ends d r :=
    ⟨none, (List.append_nil _).symm, fun r hr => by cases hr⟩
  cases he with
  | @lead p =>
    refine ⟨some ⟨p, c.generation, .leader⟩, rfl, ?_⟩
    rintro r ⟨⟩
    exact ⟨iff_of_true (.inl rfl) (Nat.lt_succ_self _), fun e he => by cases he⟩
  | @follow w _ _ hw hg =>
    refine ⟨some ⟨w.who, w.generation, .follower⟩, rfl, ?_⟩
    rintro r ⟨⟩
    exact ⟨iff_of_true (.inr rfl) (lt_of_le_of_ne (h.waiting w hw).2 hg), fun e he => by cases he⟩
  | @withdraw w hw hg =>
    refine ⟨some ⟨w.who, w.generation, .failed .timedOut⟩, rfl, ?_⟩
    rintro r ⟨⟩
    refine ⟨iff_of_false (by simp) ?_, fun e he => ?_⟩
    · exact (lt_irrefl c.generation) ∘ hg.symm.trans_lt
    · cases he
      refine ⟨rfl, rfl, hg, mem_standing_of_waiting hw hg, standing_withdraw h hg rfl rfl⟩
  | join => exact hquiet
  | idle => exact hquiet
  | release => exact hquiet
  | depart => exact hquiet

theorem Consistent.safe (h : c.Consistent) : c.Safe where
  arrived := h.tallies.arrived
  parties := ⟨by rw [h.tallies.parties, card_present h.departed], h.departed⟩
  below := by
    rw [h.tallies.arrived, h.tallies.parties]
    exact h.tallies.below
  counted w hw hpoll := by
    rw [h.tallies.poll] at hpoll
    split at hpoll
    · rename_i hg
      rw [h.tallies.arrived]
      exact Finset.card_pos.2 ⟨w.who, mem_standing_of_waiting hw hg.symm⟩
    · cases hpoll
  completes a d ha := h.completes (h.event_of_act ha)
  recorded := h.completions
  returns a d ha := h.returns (h.event_of_act ha)
  wakes w hw := by
    rw [Meeting.wake, h.tallies.poll]
    rcases (h.waiting w hw).2.lt_or_eq with hlt | heq
    · rw [if_pos hlt, if_neg (show c.meeting.barrier.generation ≠ _ from hlt.ne')]
    · rw [if_neg heq.not_lt, if_pos (show c.meeting.barrier.generation = _ from heq.symm)]
  leaders := h.leaders

/-- At a barrier for all parties, whatever they do and in whatever order. -/
theorem safe_of_after {acts : List (Act α)} (h : (start α).after? acts = some c) : c.Safe :=
  (consistent_of_after consistent_start h).safe

/-- Of three parties one gives up and comes back, one leaves and thereby completes the first generation,
and one learns of it only after the other has arrived in the next one. -/
def eventful : List (Act (Fin 3)) :=
  [.arrive 0, .expire ⟨0, 0⟩, .arrive 1, .arrive 0, .leave 2, .wake ⟨1, 0⟩, .arrive 1, .wake ⟨0, 0⟩,
    .arrive 0]

theorem safe_of_eventful : ∃ c, (start (Fin 3)).after? eventful = some c ∧
    c.completions = [.departure 2, .arrival 0] ∧ c.leaders 0 = [] ∧ c.leaders 1 = [0] ∧ c.Safe := by
  have h : ((start (Fin 3)).after? eventful).isSome := by decide +kernel
  obtain ⟨c, hc⟩ := Option.isSome_iff_exists.1 h
  have hcompletions : ((start (Fin 3)).after? eventful).map completions =
      some [.departure 2, .arrival 0] := by decide +kernel
  rw [hc, Option.map_some, Option.some.injEq] at hcompletions
  have hsafe := safe_of_after hc
  refine ⟨c, hc, hcompletions, ?_, ?_, hsafe⟩ <;> rw [hsafe.leaders, hcompletions] <;> rfl

end Chronicle
end SortLast
