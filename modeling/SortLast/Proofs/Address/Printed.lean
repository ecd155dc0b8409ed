import SortLast.Address.Participant
import SortLast.Proofs.Text

/-!
# Addresses that are printed and read again

An address is printed with brackets around a host in which there is a colon, and as it is otherwise.
What is read back of the text is the printed host without the white space in front of it and without
one pair of brackets. So an address is printed faithfully if its brackets were written by the printing,
or if its host has none of its own and does not begin with white space. The reader takes hosts that are
neither: brackets that were written twice are read as part of the host, and white space as well if it
stood inside of brackets.

* `ParticipantAddress.shownHost`: the host as it is printed.
* `ParticipantAddress.parse_text`: what is read of a printed address.
* `ParticipantAddress.Plain`: the hosts that are read as they were.
* `ParticipantAddress.parse_text_iff`: of the addresses that were read, exactly those with a plain host
  survive printing.
-/

namespace SortLast
namespace ParticipantAddress

variable {s : String} {a : ParticipantAddress} {host : List Char}

/-! ### Brackets -/

/-- A host in a pair of brackets. -/
def Bracketed (host : List Char) : Prop := host.head? = some '[' ∧ host.getLast? = some ']'

instance (host : List Char) : Decidable (Bracketed host) := inferInstanceAs (Decidable (_ ∧ _))

theorem unbracket_bracketed (inner : List Char) : unbracket ('[' :: (inner ++ [']'])) = inner := by
  rw [unbracket, if_pos List.getLast?_concat, List.dropLast_concat]

theorem unbracket_of_not_bracketed (h : ¬ Bracketed host) : unbracket host = host := by
  unfold unbracket
  split
  · rename_i inner
    refine if_neg fun hlast => h ⟨rfl, ?_⟩
    rw [List.getLast?_cons, hlast]
    rfl
  · rfl

theorem unbracket_length_lt (h : Bracketed host) : (unbracket host).length < host.length := by
  obtain ⟨hhead, hlast⟩ := h
  obtain ⟨inner, rfl⟩ := List.head?_eq_some_iff.1 hhead
  have hinner : inner.getLast? = some ']' := by
    cases hc : inner.getLast? with
    | none => rw [List.getLast?_cons, hc] at hlast; cases hlast
    | some c => rw [List.getLast?_cons, hc] at hlast; exact hlast
  rw [unbracket, if_pos hinner, List.length_dropLast, List.length_cons]
  omega

/-- Brackets and white space are taken from no host but one that has them. -/
theorem unbracket_dropWhile_iff :
    unbracket (host.dropWhile Text.isBlank) = host ↔
      (∀ c ∈ host.head?, Text.isBlank c = false) ∧ ¬ Bracketed host := by
  constructor
  · intro h
    have hle := (List.dropWhile_suffix (l := host) Text.isBlank).length_le
    have hbracket : ¬ Bracketed (host.dropWhile Text.isBlank) := fun hb => by
      have hlt := unbracket_length_lt hb
      rw [h] at hlt
      omega
    rw [unbracket_of_not_bracketed hbracket] at h
    rw [h] at hbracket
    exact ⟨Text.dropWhile_isBlank_eq_self_iff.1 h, hbracket⟩
  · rintro ⟨hhead, hbracket⟩
    rw [Text.dropWhile_isBlank_eq_self_iff.2 hhead, unbracket_of_not_bracketed hbracket]

/-! ### Reading -/

/-- How the parts of a text are read. -/
theorem parse_of_parts {front digits : List Char} {port : Nat}
    (hsplit : Text.splitLast ':' (Text.trim s.toList) = some (front, digits))
    (hport : Text.parseNat UInt16.size digits = .ok port) :
    parse s = if (unbracket front).isEmpty || port == 0 then .error (.badAddress s)
      else .ok ⟨String.ofList (unbracket front), UInt16.ofNat port⟩ := by
  rw [parse, hsplit]
  simp only [hport]

/-- What was read has a host and a port. -/
theorem parse_ok (h : parse s = .ok a) : a.host.toList ≠ [] ∧ a.port ≠ 0 := by
  unfold parse at h
  split at h
  · cases h
  · simp only at h
    split at h
    · cases h
    · rename_i port hport
      have hlt := Text.parseNat_lt hport
      split at h
      · cases h
      · rename_i hgood
        cases h
        rw [Bool.or_eq_true, not_or, List.isEmpty_iff, beq_iff_eq] at hgood
        refine ⟨by rw [String.toList_ofList]; exact hgood.1, fun hzero => hgood.2 ?_⟩
        have hvalue := congrArg UInt16.toNat hzero
        rwa [UInt16.toNat_ofNat_of_lt' hlt] at hvalue

/-! ### Printing -/

/-- The host as it is printed. -/
def shownHost (a : ParticipantAddress) : List Char :=
  if ':' ∈ a.host.toList then '[' :: (a.host.toList ++ [']']) else a.host.toList

theorem toList_text (a : ParticipantAddress) :
    a.text.toList = a.shownHost ++ ':' :: Nat.toDigits 10 a.port.toNat := by
  unfold text shownHost
  by_cases hcolon : ':' ∈ a.host.toList
  · rw [if_pos (List.contains_iff_mem.2 hcolon), if_pos hcolon]
    simp [String.toList_append]
  · rw [if_neg (fun hc => hcolon (List.contains_iff_mem.1 hc)), if_neg hcolon]
    simp [String.toList_append]

/-- What is read of a printed address: of the printed host, white space in front of it and a pair of
brackets are left out. The port is read as it was. -/
theorem parse_text (hport : a.port ≠ 0) :
    parse a.text =
      if (unbracket (a.shownHost.dropWhile Text.isBlank)).isEmpty then .error (.badAddress a.text)
      else .ok ⟨String.ofList (unbracket (a.shownHost.dropWhile Text.isBlank)), a.port⟩ := by
  have hdigits : ∀ c ∈ Nat.toDigits 10 a.port.toNat, c.isDigit := fun c hc =>
    Nat.isDigit_of_mem_toDigits (by decide) (by decide) hc
  have htrim : Text.trim a.text.toList =
      a.shownHost.dropWhile Text.isBlank ++ ':' :: Nat.toDigits 10 a.port.toNat := by
    rw [toList_text]
    exact Text.trim_append (by decide) _ fun c hc => Text.isBlank_of_isDigit (hdigits c hc)
  have hcolon : ':' ∉ Nat.toDigits 10 a.port.toNat := fun hmem => absurd (hdigits _ hmem) (by decide)
  have hread := Text.parseNat_toDigits a.port.toNat_lt
  have hzero : (a.port.toNat == 0) = false :=
    beq_eq_false_iff_ne.2 fun h0 => hport (UInt16.toNat_inj.1 h0)
  rw [parse_of_parts (htrim ▸ Text.splitLast_append hcolon _) hread, hzero, Bool.or_false,
    UInt16.ofNat_toNat]

/-- The host is printed in brackets, or needs none: it begins with no white space and has no brackets
of its own. -/
def Plain (a : ParticipantAddress) : Prop :=
  ':' ∈ a.host.toList ∨
    (∀ c ∈ a.host.toList.head?, Text.isBlank c = false) ∧ ¬ Bracketed a.host.toList

/-- An address that was read survives printing exactly if its host is plain. -/
theorem parse_text_iff (h : parse s = .ok a) : parse a.text = .ok a ↔ a.Plain := by
  obtain ⟨hhost, hport⟩ := parse_ok h
  rw [parse_text hport]
  unfold Plain shownHost
  by_cases hcolon : ':' ∈ a.host.toList
  · have hbracket : ∀ c ∈ ('[' :: (a.host.toList ++ [']'])).head?, Text.isBlank c = false := by
      rintro c ⟨⟩
      decide
    rw [if_pos hcolon, Text.dropWhile_isBlank_eq_self_iff.2 hbracket, unbracket_bracketed,
      if_neg (by simpa using hhost), String.ofList_toList]
    exact iff_of_true rfl (.inl hcolon)
  · rw [if_neg hcolon, or_iff_right hcolon, ← unbracket_dropWhile_iff]
    generalize unbracket (a.host.toList.dropWhile Text.isBlank) = read
    constructor
    · intro hread
      split at hread
      · cases hread
      · obtain ⟨host, port⟩ := a
        cases hread
        exact String.toList_ofList.symm
    · rintro rfl
      rw [if_neg (by simpa using hhost), String.ofList_toList]

/-- White space around the text and a sign before the port are not printed, and the brackets are written
again, since there are colons in the host. -/
theorem parse_text_iff_loopback :
    parse " [::1]:+80\t" = .ok ⟨"::1", 80⟩ ∧ text ⟨"::1", 80⟩ = "[::1]:80" ∧
      parse (text ⟨"::1", 80⟩) = .ok ⟨"::1", 80⟩ := by
  have h : parse " [::1]:+80\t" = .ok ⟨"::1", 80⟩ := by decide +kernel
  exact ⟨h, by decide +kernel, (parse_text_iff h).2 (.inl (by decide))⟩

/-- Of two pairs of brackets around a host without a colon, one is read as part of the host. It is
printed as it is, and taken off by the next reader. -/
theorem parse_text_nested :
    ∃ a, parse "[[a]]:80" = .ok a ∧ a.text = "[a]:80" ∧ parse a.text = .ok ⟨"a", 80⟩ ∧
      parse a.text ≠ .ok a :=
  ⟨⟨"[a]", 80⟩, by decide +kernel, by decide +kernel, by decide +kernel, by decide +kernel⟩

/-- A host of white space alone does not even leave an address. -/
example : parse "[ ]:80" = .ok ⟨" ", 80⟩ ∧ parse (text ⟨" ", 80⟩) = .error (.badAddress " :80") := by
  decide +kernel

end ParticipantAddress
end SortLast
