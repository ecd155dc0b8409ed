import SortLast.Proofs.Wire.Stream

/-!
# What a sink accepts

A sink accepts the bytes of a message in order, up to a failure. A success means that all of them were
accepted, a failure that some part was, from the front on.

* `Sink.put_ok`, `Sink.put_error`: one message.
* `Sink.putAll_ok`, `Sink.putAll_error`: messages in order.
* `Sink.putCommand_ok`, `Sink.putCommand_error`: a command; after a failure the stream ends with the
  whole command or with an unfinished one.
* `Sink.Reliable`: a sink that never fails; it takes every message that fits into a frame.
-/

namespace SortLast
namespace Sink

/-! ### Bytes -/

theorem offer_taken_prefix (reply : Nat → WriteReply) (next : Nat) (bytes : List UInt8) :
    (offer reply next bytes).taken <+: bytes := by
  fun_induction offer reply next bytes with
  | case1 => exact List.prefix_rfl
  | case2 => exact List.nil_prefix
  | case3 => exact List.nil_prefix
  | case4 next b rest n _ w ih =>
    show b :: rest.take n ++ w.taken <+: b :: rest
    refine List.cons_prefix_cons.2 ⟨rfl, ?_⟩
    conv_rhs => rw [← List.take_append_drop n rest]
    exact (List.prefix_append_right_inj _).2 ih

/-- Without a failure everything is taken. -/
theorem offer_taken_of_success {reply : Nat → WriteReply} {next : Nat} {bytes : List UInt8}
    (h : (offer reply next bytes).failure = none) : (offer reply next bytes).taken = bytes := by
  fun_induction offer reply next bytes with
  | case1 => rfl
  | case2 => cases h
  | case3 => cases h
  | case4 next b rest n _ w ih =>
    show b :: rest.take n ++ w.taken = b :: rest
    rw [ih h, List.cons_append, List.take_append_drop]

theorem writeAll_ok {s t : Sink} {bytes : List UInt8} (h : s.writeAll bytes = (.ok (), t)) :
    t.accepted = s.accepted ++ bytes := by
  simp only [writeAll] at h
  split at h
  · rename_i hf
    cases h
    rw [offer_taken_of_success hf]
  · cases h

theorem writeAll_error {s t : Sink} {bytes : List UInt8} {e : NetError}
    (h : s.writeAll bytes = (.error e, t)) : ∃ u, t.accepted = s.accepted ++ u ∧ u <+: bytes := by
  simp only [writeAll] at h
  split at h
  · cases h
  · cases h
    exact ⟨_, rfl, offer_taken_prefix _ _ _⟩

theorem flush_accepted (s : Sink) : s.flush.2.accepted = s.accepted := by
  simp only [flush]
  split <;> rfl

/-! ### Messages -/

theorem put_ok {s t : Sink} {m : Message} (h : s.put m = (.ok (), t)) :
    m.Framed ∧ t.accepted = s.accepted ++ m.frame := by
  simp only [put] at h
  split at h
  · cases h
  · rename_i hm
    split at h
    · rename_i u hw
      refine ⟨Nat.not_lt.1 hm, ?_⟩
      rw [← writeAll_ok hw, ← flush_accepted u, h]
    · cases h

theorem put_error {s t : Sink} {m : Message} {e : NetError} (h : s.put m = (.error e, t)) :
    ∃ u, t.accepted = s.accepted ++ u ∧ u <+: m.frame ∧ (u = [] ∨ m.Framed) := by
  simp only [put] at h
  split at h
  · cases h
    exact ⟨[], by rw [List.append_nil], List.nil_prefix, .inl rfl⟩
  · rename_i hm
    split at h
    · rename_i u hw
      refine ⟨m.frame, ?_, List.prefix_rfl, .inr (Nat.not_lt.1 hm)⟩
      rw [← writeAll_ok hw, ← flush_accepted u, h]
    · rename_i hw
      cases h
      obtain ⟨u, hu, hp⟩ := writeAll_error hw
      exact ⟨u, hu, hp, .inr (Nat.not_lt.1 hm)⟩

theorem putAll_ok {s t : Sink} {ms : List Message} (h : s.putAll ms = (.ok (), t)) :
    (∀ m ∈ ms, m.Framed) ∧ t.accepted = s.accepted ++ ms.flatMap Message.frame := by
  induction ms generalizing s with
  | nil =>
    cases h
    exact ⟨by simp, by simp⟩
  | cons m ms ih =>
    rw [putAll] at h
    split at h
    · rename_i u hu
      obtain ⟨hm, hmu⟩ := put_ok hu
      obtain ⟨hms, ht⟩ := ih h
      exact ⟨List.forall_mem_cons.2 ⟨hm, hms⟩, by
        rw [ht, hmu, List.flatMap_cons, List.append_assoc]⟩
    · cases h

theorem putAll_error {s t : Sink} {ms : List Message} {e : NetError}
    (h : s.putAll ms = (.error e, t)) :
    ∃ pre m rest u, ms = pre ++ m :: rest ∧ (∀ x ∈ pre, x.Framed) ∧
      t.accepted = s.accepted ++ (pre.flatMap Message.frame ++ u) ∧ u <+: m.frame ∧
      (u = [] ∨ m.Framed) := by
  induction ms generalizing s with
  | nil => cases h
  | cons m ms ih =>
    rw [putAll] at h
    split at h
    · rename_i v hv
      obtain ⟨hm, hmv⟩ := put_ok hv
      obtain ⟨pre, m', rest, u, rfl, hpre, ht, hu, hf⟩ := ih h
      refine ⟨m :: pre, m', rest, u, rfl, List.forall_mem_cons.2 ⟨hm, hpre⟩, ?_, hu, hf⟩
      rw [ht, hmv, List.flatMap_cons, List.append_assoc, List.append_assoc]
    · rename_i v hv
      cases h
      obtain ⟨u, hu, hp, hf⟩ := put_error hv
      exact ⟨[], m, ms, u, rfl, by simp, by simpa using hu, hp, hf⟩

/-! ### Commands -/

theorem putCommand_ok {s t : Sink} {c : Command} (h : s.putCommand c = (.ok (), t)) :
    c.Framed ∧ t.accepted = s.accepted ++ c.bytes := putAll_ok h

/-- A failure leaves the whole command on the stream, if only the last flush has failed, or an
unfinished part of it. -/
theorem putCommand_error {s t : Sink} {c : Command} {e : NetError}
    (h : s.putCommand c = (.error e, t)) :
    ∃ w, t.accepted = s.accepted ++ w ∧ w <+: c.bytes ∧ (w = c.bytes ∧ c.Framed ∨ Unfinished w) := by
  obtain ⟨pre, m, rest, u, hc, hpre, ht, hu, hf⟩ := putAll_error h
  have hb : c.bytes = pre.flatMap Message.frame ++ (m.frame ++ rest.flatMap Message.frame) := by
    rw [Command.bytes, hc, List.flatMap_append, List.flatMap_cons]
  refine ⟨_, ht, ?_, ?_⟩
  · rw [hb]
    exact (List.prefix_append_right_inj _).2 (List.prefix_append_of_prefix hu)
  by_cases hm : u = m.frame
  · subst hm
    have hm : m.Framed := hf.resolve_left m.frame_ne_nil
    have hall : ∀ x ∈ pre ++ [m], x.Framed := by
      rintro x hx
      rcases List.mem_append.1 hx with hx | hx
      · exact hpre x hx
      · rwa [List.mem_singleton.1 hx]
    cases rest with
    | nil => exact .inl ⟨by simp [hb], by rwa [Command.Framed, hc]⟩
    | cons m' rest =>
      have hs : c.messages = (pre ++ [m]) ++ m' :: rest := by simp [hc]
      have hun := Command.unfinished_of_split hs hall List.nil_prefix m'.frame_ne_nil.symm (.inl rfl)
      rw [List.append_nil, List.flatMap_append, List.flatMap_singleton] at hun
      exact .inr hun
  · exact .inr (Command.unfinished_of_split hc hpre hu hm hf)

/-! ### Sinks that never fail -/

/-- Every write accepts something, and no flush fails. -/
structure Reliable (s : Sink) : Prop where
  write : ∀ n, ∃ k, s.writeReply n = .accept (k + 1)
  flush : ∀ n, s.flushReply n = none

theorem unlimited_reliable : unlimited.Reliable := ⟨fun _ => ⟨maxPayload, rfl⟩, fun _ => rfl⟩

theorem offer_of_accepting {reply : Nat → WriteReply} (h : ∀ n, ∃ k, reply n = .accept (k + 1))
    (next : Nat) (bytes : List UInt8) : (offer reply next bytes).failure = none := by
  fun_induction offer reply next bytes with
  | case1 => rfl
  | case2 next b rest e he =>
    obtain ⟨k, hk⟩ := h next
    rw [hk] at he
    cases he
  | case3 next b rest he =>
    obtain ⟨k, hk⟩ := h next
    rw [hk] at he
    cases he
  | case4 next b rest n _ w ih => exact ih

theorem Reliable.put {s : Sink} (h : s.Reliable) {m : Message} (hm : m.Framed) :
    ∃ t, s.put m = (.ok (), t) ∧ t.Reliable := by
  rw [Sink.put, if_neg (Nat.not_lt.2 hm)]
  simp only [writeAll, offer_of_accepting h.write]
  simp only [Sink.flush, h.flush]
  exact ⟨_, rfl, h.write, h.flush⟩

theorem Reliable.putAll {s : Sink} (h : s.Reliable) {ms : List Message} (hms : ∀ m ∈ ms, m.Framed) :
    ∃ t, s.putAll ms = (.ok (), t) ∧ t.Reliable := by
  induction ms generalizing s with
  | nil => exact ⟨s, rfl, h⟩
  | cons m ms ih =>
    rw [List.forall_mem_cons] at hms
    obtain ⟨t, ht, hr⟩ := h.put hms.1
    obtain ⟨u, hu, hru⟩ := ih hr hms.2
    exact ⟨u, by rw [Sink.putAll, ht]; exact hu, hru⟩

theorem Reliable.putCommand {s : Sink} (h : s.Reliable) {c : Command} (hc : c.Framed) :
    ∃ t, s.putCommand c = (.ok (), t) ∧ t.Reliable := h.putAll hc

/-- A message that does not fit into a frame is refused. -/
theorem put_of_not_framed {s : Sink} {m : Message} (h : ¬ m.Framed) :
    s.put m = (.error (.tooLarge (Message.codec.size m)), s) := by
  rw [Sink.put, if_pos (Nat.lt_of_not_le h)]

/-- A payload that is too large is only found out when its tag has been sent. -/
theorem Reliable.putCommand_oversized {s : Sink} (h : s.Reliable) {c : Command} {m : Message}
    (hc : c.payload = [m]) (hm : ¬ m.Framed) :
    ∃ t, s.putCommand c = (.error (.tooLarge (Message.codec.size m)), t) ∧
      t.accepted = s.accepted ++ (Message.reason c.reason).frame := by
  have htag : (Message.reason c.reason).Framed := of_decide_eq_true rfl
  obtain ⟨t, ht, -⟩ := h.put htag
  refine ⟨t, ?_, (put_ok ht).2⟩
  rw [Sink.putCommand, Command.messages, hc, Sink.putAll, ht]
  simp only [Sink.putAll, put_of_not_framed hm]

end Sink
end SortLast
