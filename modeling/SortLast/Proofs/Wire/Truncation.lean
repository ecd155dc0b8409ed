import SortLast.Proofs.Wire.Sink

/-!
# Cut streams of commands

Whoever receives only a part of a stream of commands reads the commands that lie in it as a whole, and
then finds the stream closed, however often the reading is repeated.

* `Sink.putCommands`: commands in order, up to the first failure.
* `Source.attempt`: the result of repeated reading.
* `Command.WholeIn`: how many commands lie entirely within the first bytes of their stream.
* `Reading.Drains`: a read that finds the stream closed has used up all of it.
* `Source.attempt_of_cut`: what is read from a part of a stream.
-/

namespace SortLast

/-- Send commands in order, up to the first failure. -/
def Sink.putCommands (s : Sink) : List Command → Except NetError Unit × Sink
  | [] => (.ok (), s)
  | c :: cs => match s.putCommand c with
    | (.ok (), t) => t.putCommands cs
    | (.error e, t) => (.error e, t)

theorem Sink.putCommands_ok {s t : Sink} {cs : List Command} (h : s.putCommands cs = (.ok (), t)) :
    (∀ c ∈ cs, c.Framed) ∧ t.accepted = s.accepted ++ cs.flatMap Command.bytes := by
  induction cs generalizing s with
  | nil =>
    cases h
    exact ⟨by simp, by simp⟩
  | cons c cs ih =>
    rw [putCommands] at h
    split at h
    · rename_i u hu
      obtain ⟨hc, ha⟩ := putCommand_ok hu
      obtain ⟨hcs, hb⟩ := ih h
      refine ⟨List.forall_mem_cons.2 ⟨hc, hcs⟩, ?_⟩
      rw [hb, ha, List.flatMap_cons, List.append_assoc]
    · cases h

theorem Sink.Reliable.putCommands {s : Sink} (h : s.Reliable) {cs : List Command}
    (hcs : ∀ c ∈ cs, c.Framed) : ∃ t, s.putCommands cs = (.ok (), t) ∧ t.Reliable := by
  induction cs generalizing s with
  | nil => exact ⟨s, rfl, h⟩
  | cons c cs ih =>
    rw [List.forall_mem_cons] at hcs
    obtain ⟨t, ht, hr⟩ := h.putCommand hcs.1
    obtain ⟨u, hu, hru⟩ := ih hr hcs.2
    exact ⟨u, by rw [Sink.putCommands, ht]; exact hu, hru⟩

/-! ### Parts of a stream -/

namespace Command

instance (c : Command) : Decidable c.Framed := inferInstanceAs (Decidable (∀ m ∈ c.messages, m.Framed))

/-- Exactly `k` commands lie entirely within the first `n` bytes of their stream. -/
def WholeIn (cs : List Command) (n k : Nat) : Prop :=
  k ≤ cs.length ∧ ∀ i ≤ cs.length, ((cs.take i).flatMap bytes).length ≤ n ↔ i ≤ k

theorem flatMap_bytes_length_mono {as bs : List Command} (h : as <+: bs) :
    (as.flatMap bytes).length ≤ (bs.flatMap bytes).length := by
  obtain ⟨cs, rfl⟩ := h
  rw [List.flatMap_append, List.length_append]
  exact Nat.le_add_right _ _

theorem WholeIn.all (cs : List Command) : WholeIn cs (cs.flatMap bytes).length cs.length :=
  ⟨Nat.le_refl _, fun i hi => iff_of_true (flatMap_bytes_length_mono (List.take_prefix i cs)) hi⟩

/-- The commands before the one that is cut are the whole ones. -/
theorem WholeIn.of_cut {pre rest : List Command} {c : Command} {u : List UInt8} (hu : u <+: c.bytes)
    (hne : u ≠ c.bytes) :
    WholeIn (pre ++ c :: rest) (pre.flatMap bytes ++ u).length pre.length := by
  refine ⟨by simp, fun i hi => ⟨fun hle => ?_, fun hle => ?_⟩⟩
  · by_contra hlt
    have hpre : pre ++ [c] <+: (pre ++ c :: rest).take i :=
      List.prefix_of_prefix_length_le ⟨rest, by simp⟩ (List.take_prefix _ _) (by simp at hi ⊢; omega)
    have hmono := flatMap_bytes_length_mono hpre
    have hshort : u.length < c.bytes.length :=
      Nat.lt_of_le_of_ne hu.length_le fun he => hne (hu.eq_of_length he)
    rw [List.flatMap_append, List.flatMap_singleton] at hmono
    simp only [List.length_append] at hle hmono
    omega
  · rw [List.take_append_of_le_length hle, List.length_append]
    exact Nat.le_trans (flatMap_bytes_length_mono (List.take_prefix i pre)) (Nat.le_add_right _ _)

/-- A part of a stream holds some whole commands and then, at most, a beginning of the next one. -/
theorem exists_wholeIn {cs : List Command} (hcs : ∀ c ∈ cs, c.Framed) {w : List UInt8}
    (h : w <+: cs.flatMap bytes) :
    ∃ k u, WholeIn cs w.length k ∧ w = (cs.take k).flatMap bytes ++ u ∧ Unfinished u := by
  by_cases hw : w = cs.flatMap bytes
  · exact ⟨cs.length, [], hw ▸ .all cs, by rw [hw, List.take_length, List.append_nil], .nil⟩
  · obtain ⟨pre, c, rest, u, rfl, rfl, hu, hne⟩ := exists_cut h hw
    have hc : c.Framed := hcs c (List.mem_append_right _ List.mem_cons_self)
    exact ⟨pre.length, u, .of_cut hu hne, by rw [List.take_left], unfinished_cut hc hu hne⟩

end Command

/-- A part of what a writer has sent is some whole commands and an unfinished rest. -/
theorem Sink.exists_wholeIn {s t : Sink} {cs : List Command} {stream w : List UInt8}
    (hput : s.putCommands cs = (.ok (), t)) (hstream : t.accepted = s.accepted ++ stream)
    (hcut : w <+: stream) :
    stream = cs.flatMap Command.bytes ∧ ∃ k u, Command.WholeIn cs w.length k ∧
      (∀ c ∈ cs.take k, c.Framed) ∧ w = (cs.take k).flatMap Command.bytes ++ u ∧ Unfinished u := by
  obtain ⟨hcs, haccepted⟩ := putCommands_ok hput
  obtain rfl : stream = cs.flatMap Command.bytes :=
    List.append_cancel_left (hstream.symm.trans haccepted)
  obtain ⟨k, u, hk, hbytes, hu⟩ := Command.exists_wholeIn hcs hcut
  exact ⟨rfl, k, u, hk, fun c hc => hcs c (List.mem_of_mem_take hc), hbytes, hu⟩

/-! ### Reading on after the end -/

namespace Source

theorem readExact_failure (s : Source) (n : Nat) : (s.readExact n).2.failure = s.failure := by
  unfold readExact
  split <;> rfl

theorem readExact_error {s t : Source} {n : Nat} {e : NetError} (h : s.readExact n = (.error e, t)) :
    t.bytes = [] := by
  unfold readExact at h
  split at h
  · cases h
  · cases h
    rfl

theorem readMessage_failure (s : Source) : s.readMessage.2.failure = s.failure := by
  have h4 := s.readExact_failure 4
  unfold readMessage
  split
  · rename_i hr
    rwa [hr] at h4
  · rename_i lengthBytes t hr
    rw [hr] at h4
    have hn := t.readExact_failure (Codec.ofLittleEndian lengthBytes)
    dsimp only
    split
    · exact h4
    · split
      · rename_i hp
        rw [hp] at hn
        exact hn.trans h4
      · rename_i hp
        rw [hp] at hn
        split <;> exact hn.trans h4

/-- No other failure of reading a message looks like the end of the stream. -/
theorem readMessage_closed {s t : Source} (h : s.readMessage = (.error .closed, t)) :
    t.bytes = [] := by
  unfold readMessage at h
  split at h
  · rename_i hr
    cases h
    exact readExact_error hr
  · dsimp only at h
    split at h
    · cases h
    · split at h
      · rename_i hp
        cases h
        exact readExact_error hp
      · split at h <;> cases h

end Source

namespace Reading

variable {α β : Type}

/-- A read that leaves alone how the stream fails, and finds the stream closed only after all of its
bytes. -/
structure Drains (r : Reading α) : Prop where
  failure : ∀ s, (r s).2.failure = s.failure
  closed : ∀ s t, r s = (.error .closed, t) → t.bytes = []

theorem drains_pure (a : α) : Drains (pure a : Reading α) where
  failure _ := rfl
  closed _ _ h := by cases h

theorem drains_message : Drains message := ⟨Source.readMessage_failure, fun _ _ => Source.readMessage_closed⟩

theorem Drains.bind {r : Reading α} {f : α → Reading β} (hr : r.Drains) (hf : ∀ a, (f a).Drains) :
    (r >>= f).Drains where
  failure s := by
    have hs := hr.failure s
    rw [bind_run]
    rcases hrs : r s with ⟨e | a, t⟩
    · rwa [hrs] at hs
    · rw [hrs] at hs
      exact ((hf a).failure t).trans hs
  closed s t h := by
    rw [bind_run] at h
    rcases hrs : r s with ⟨e | a, u⟩
    · rw [hrs] at h
      cases h
      exact hr.closed s _ hrs
    · rw [hrs] at h
      exact (hf a).closed u t h

theorem drains_expect (kind : Message.Kind) (select : Message → Option α) :
    (expect kind select).Drains := by
  refine drains_message.bind fun m => ?_
  cases select m with
  | some a => exact drains_pure a
  | none => exact ⟨fun _ => rfl, fun _ _ h => by cases h⟩

theorem drains_command : Drains command := by
  refine (drains_expect _ _).bind fun r => ?_
  cases r with
  | matrix => exact (drains_expect _ _).bind fun p => (drains_expect _ _).bind fun m => drains_pure _
  | toggleBoundingBox | exit => exact drains_pure _
  | _ => exact (drains_expect _ _).bind fun v => drains_pure _

end Reading

namespace Source

/-- The result of attempt number `i` to read a command, after all attempts before it. -/
def attempt : Nat → Source → Except NetError Command
  | 0, s => (Reading.command s).1
  | i + 1, s => attempt i (Reading.command s).2

/-- Commands with an unfinished rest are read in order, and then the stream is closed for good. -/
theorem attempt_eq {s : Source} {cs : List Command} {w : List UInt8} (hend : s.failure = none)
    (hcs : ∀ c ∈ cs, c.Framed) (hw : Unfinished w) (h : s.bytes = cs.flatMap Command.bytes ++ w)
    (i : Nat) : s.attempt i = (cs[i]?).elim (.error .closed) .ok := by
  induction i generalizing s cs w with
  | zero =>
    cases cs with
    | nil =>
      obtain ⟨t, ht⟩ := hw s h
      rw [attempt, ht, ending, hend]
      rfl
    | cons c cs =>
      rw [List.forall_mem_cons] at hcs
      rw [List.flatMap_cons, List.append_assoc] at h
      obtain ⟨t, ht, -⟩ := Command.run_bytes hcs.1 h
      rw [attempt, ht]
      rfl
  | succ i ih =>
    have hfail := Reading.drains_command.failure s
    cases cs with
    | nil =>
      obtain ⟨t, ht⟩ := hw s h
      rw [ending, hend] at ht
      rw [ht] at hfail
      -- nothing is left after the end was found
      have hb : t.bytes = [].flatMap Command.bytes ++ [] := Reading.drains_command.closed s t ht
      rw [attempt, ht, ih (hfail.trans hend) hcs .nil hb]
      rfl
    | cons c cs =>
      rw [List.forall_mem_cons] at hcs
      rw [List.flatMap_cons, List.append_assoc] at h
      obtain ⟨t, ht, htb, htf⟩ := Command.run_bytes hcs.1 h
      rw [attempt, ht, ih (htf.trans hend) hcs.2 hw htb, List.getElem?_cons_succ]

/-- Whoever receives a part of what a writer has sent, in any chunks, reads the commands that lie in
it as a whole, one after the other and unchanged, and finds the stream closed ever after. -/
theorem attempt_of_cut {writer writer' : Sink} {cs : List Command} {stream : List UInt8}
    {chunks : List (List UInt8)} (hput : writer.putCommands cs = (.ok (), writer'))
    (hstream : writer'.accepted = writer.accepted ++ stream) (hcut : chunks.flatten <+: stream) :
    stream = cs.flatMap Command.bytes ∧ ∃ k, Command.WholeIn cs chunks.flatten.length k ∧
      (Source.mk chunks none).commands = (cs.take k, .closed) ∧
      ∀ i, (Source.mk chunks none).attempt i = ((cs.take k)[i]?).elim (.error .closed) .ok := by
  obtain ⟨hall, k, u, hk, hwhole, hbytes, hu⟩ := Sink.exists_wholeIn hput hstream hcut
  exact ⟨hall, k, hk, commands_eq hwhole hu hbytes, attempt_eq rfl hwhole hu hbytes⟩

/-- A quality is read from two chunks, and the end of the session behind it, which is cut, is not. -/
theorem attempt_of_cut_quality :
    ∃ chunks : List (List UInt8), chunks.flatten.length = 30 ∧
      (Source.mk chunks none).commands = ([.quality 1], .closed) ∧
      (Source.mk chunks none).attempt 0 = .ok (.quality 1) ∧
      (Source.mk chunks none).attempt 1 = .error .closed ∧
      (Source.mk chunks none).attempt 2 = .error .closed := by
  have hcs : ∀ c ∈ [Command.quality 1, .exit], c.Framed := by decide
  obtain ⟨writer', hput, -⟩ := Sink.unlimited_reliable.putCommands hcs
  obtain ⟨stream, hstream⟩ : ∃ stream, writer'.accepted = Sink.unlimited.accepted ++ stream :=
    ⟨_, (Sink.putCommands_ok hput).2⟩
  have hflatten : [stream.take 10, (stream.drop 10).take 20].flatten = stream.take 30 := by
    rw [List.flatten_cons, List.flatten_singleton, ← List.take_add]
  have hcut : [stream.take 10, (stream.drop 10).take 20].flatten <+: stream := by
    rw [hflatten]
    exact List.take_prefix 30 stream
  obtain ⟨rfl, k, ⟨hk, hwhole⟩, hcommands, hattempt⟩ := attempt_of_cut hput hstream hcut
  have hlength : ([Command.quality 1, .exit].flatMap Command.bytes).length = 36 := by decide
  rw [hflatten, List.length_take, hlength] at hwhole
  have h1 : 1 ≤ k := (hwhole 1 (by decide)).1 (by decide)
  have h2 : ¬ 2 ≤ k := mt (hwhole 2 (by decide)).2 (by decide)
  obtain rfl : k = 1 := by omega
  refine ⟨_, ?_, hcommands, hattempt 0, hattempt 1, hattempt 2⟩
  rw [hflatten, List.length_take, hlength]
  rfl

end Source
end SortLast
