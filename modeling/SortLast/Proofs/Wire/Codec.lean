import SortLast.Wire.Codec
import Mathlib.Tactic

/-!
# Laws of codecs

Reading accepts exactly what writing produces: `Codec.Lawful` holds for the codec of every scalar,
is kept by every way of combining codecs, and so holds for every record of the domain. A length is
written in eight bytes, so lists and buffers of `2 ^ 64` elements or more are left out.

* `Lawful.word`, `Lawful.imap`, `Lawful.pair`, `Lawful.option`, `Lawful.list`, `Lawful.array`,
  `Lawful.enumeration`: one law per combinator.
* `Lawful.brick`, `Lawful.transferFunction`, `Lawful.image`: the records that hold lists.
-/

namespace SortLast
namespace Codec

variable {α β : Type}

/-- Every value fits. -/
def Always : α → Prop := fun _ => True

/-- The lists whose length and whose elements fit. -/
def ListFits (fits : α → Prop) (as : List α) : Prop := as.length < 2 ^ 64 ∧ ∀ a ∈ as, fits a

/-! ### Bytes and numbers -/

theorem takeBytes_append (a b : List UInt8) : takeBytes a.length (a ++ b) = some (a, b) := by
  induction a with
  | nil => rfl
  | cons x a ih => simp [takeBytes, ih]

theorem eq_append_of_takeBytes {n : Nat} {bytes taken rest : List UInt8}
    (h : takeBytes n bytes = some (taken, rest)) : taken.length = n ∧ bytes = taken ++ rest := by
  induction n generalizing bytes taken with
  | zero =>
    simp only [takeBytes, Option.some.injEq, Prod.mk.injEq] at h
    obtain ⟨rfl, rfl⟩ := h
    exact ⟨rfl, rfl⟩
  | succ n ih =>
    cases bytes with
    | nil => cases h
    | cons b bytes =>
      obtain ⟨⟨taken', rest'⟩, hs, he⟩ := Option.map_eq_some_iff.1 h
      simp only [Prod.mk.injEq] at he
      obtain ⟨rfl, rfl⟩ := he
      obtain ⟨hl, rfl⟩ := ih hs
      exact ⟨by rw [List.length_cons, hl], rfl⟩

@[simp] theorem littleEndian_length (width n : Nat) : (littleEndian width n).length = width := by
  induction width generalizing n with
  | zero => rfl
  | succ width ih => simp [littleEndian, ih]

theorem ofLittleEndian_littleEndian {width n : Nat} (h : n < 256 ^ width) :
    ofLittleEndian (littleEndian width n) = n := by
  induction width generalizing n with
  | zero => simp at h; simp [littleEndian, ofLittleEndian, h]
  | succ width ih =>
    have hdiv : n / 256 < 256 ^ width := by
      rw [Nat.div_lt_iff_lt_mul (by norm_num)]
      simpa [Nat.pow_succ] using h
    rw [littleEndian, ofLittleEndian, ih hdiv, UInt8.toNat_ofNat']
    omega

theorem ofLittleEndian_lt (bytes : List UInt8) : ofLittleEndian bytes < 256 ^ bytes.length := by
  induction bytes with
  | nil => simp [ofLittleEndian]
  | cons b bytes ih =>
    have hb := b.toNat_lt
    rw [ofLittleEndian, List.length_cons, Nat.pow_succ]
    omega

theorem littleEndian_ofLittleEndian (bytes : List UInt8) :
    littleEndian bytes.length (ofLittleEndian bytes) = bytes := by
  induction bytes with
  | nil => rfl
  | cons b bytes ih =>
    have hb := b.toNat_lt
    have hdiv : (b.toNat + 256 * ofLittleEndian bytes) / 256 = ofLittleEndian bytes := by omega
    have hmod : UInt8.ofNat (b.toNat + 256 * ofLittleEndian bytes) = b := by
      rw [← UInt8.toNat_inj, UInt8.toNat_ofNat']
      omega
    rw [List.length_cons, ofLittleEndian, littleEndian, hdiv, hmod, ih]

/-! ### Combinators -/

theorem Lawful.word (width : Nat) : (word width).Lawful (· < 256 ^ width) where
  size_eq n _ := (littleEndian_length width n).symm
  decode_encode n rest hn := by
    have h := takeBytes_append (littleEndian width n) rest
    rw [littleEndian_length] at h
    simp only [Codec.word, h, ofLittleEndian_littleEndian hn]
  eq_encode bytes n rest h := by
    simp only [Codec.word] at h
    split at h
    · rename_i taken rest' ht
      simp only [Except.ok.injEq, Prod.mk.injEq] at h
      obtain ⟨rfl, rfl⟩ := h
      obtain ⟨rfl, rfl⟩ := eq_append_of_takeBytes ht
      exact ⟨ofLittleEndian_lt taken, by simp only [Codec.word, littleEndian_ofLittleEndian]⟩
    · cases h

/-- A codec for values that are written as others, if the two translations are inverse to each other
on the values that fit. -/
theorem Lawful.imap {c : Codec α} {fits : α → Prop} {fits' : β → Prop} {into : α → β} {back : β → α}
    (hc : c.Lawful fits) (hinto : ∀ a, fits a → fits' (into a) ∧ back (into a) = a)
    (hback : ∀ b, fits' b → fits (back b) ∧ into (back b) = b) :
    (c.imap into back).Lawful fits' where
  size_eq b hb := hc.size_eq _ (hback b hb).1
  decode_encode b rest hb := by
    simp only [Codec.imap, hc.decode_encode _ rest (hback b hb).1, Except.map, (hback b hb).2]
  eq_encode bytes b rest h := by
    simp only [Codec.imap] at h
    cases hd : c.decode bytes with
    | error e => rw [hd] at h; cases h
    | ok p =>
      rw [hd] at h
      simp only [Except.map, Except.ok.injEq, Prod.mk.injEq] at h
      obtain ⟨rfl, rfl⟩ := h
      obtain ⟨hf, he⟩ := hc.eq_encode bytes p.1 p.2 hd
      exact ⟨(hinto _ hf).1, by simp only [Codec.imap, (hinto _ hf).2]; exact he⟩

theorem Lawful.pair {c : Codec α} {d : Codec β} {fits : α → Prop} {fits' : β → Prop}
    (hc : c.Lawful fits) (hd : d.Lawful fits') :
    (c.pair d).Lawful fun p => fits p.1 ∧ fits' p.2 where
  size_eq p hp := by
    simp only [Codec.pair, List.length_append, hc.size_eq _ hp.1, hd.size_eq _ hp.2]
  decode_encode p rest hp := by
    simp only [Codec.pair, List.append_assoc, hc.decode_encode _ _ hp.1, Except.bind,
      hd.decode_encode _ _ hp.2, Except.map]
  eq_encode bytes p rest h := by
    simp only [Codec.pair] at h
    cases hcd : c.decode bytes with
    | error e => rw [hcd] at h; cases h
    | ok x =>
      obtain ⟨a, rest'⟩ := x
      rw [hcd] at h
      simp only [Except.bind] at h
      cases hdd : d.decode rest' with
      | error e => rw [hdd] at h; cases h
      | ok y =>
        rw [hdd] at h
        simp only [Except.map, Except.ok.injEq, Prod.mk.injEq] at h
        obtain ⟨rfl, rfl⟩ := h
        obtain ⟨hf, rfl⟩ := hc.eq_encode _ _ _ hcd
        obtain ⟨hf', rfl⟩ := hd.eq_encode _ _ _ hdd
        exact ⟨⟨hf, hf'⟩, by simp only [Codec.pair, List.append_assoc]⟩

theorem Lawful.bool : Codec.bool.Lawful Always where
  size_eq _ _ := rfl
  decode_encode b rest _ := by cases b <;> rfl
  eq_encode bytes b rest h := by
    cases bytes with
    | nil => cases h
    | cons x bytes =>
      simp only [Codec.bool] at h
      split_ifs at h with h0 h1 <;> simp only [Except.ok.injEq, Prod.mk.injEq] at h <;>
        obtain ⟨rfl, rfl⟩ := h
      · exact ⟨trivial, by simp [Codec.bool, h0]⟩
      · exact ⟨trivial, by simp [Codec.bool, h1]⟩

theorem Lawful.option {c : Codec α} {fits : α → Prop} (hc : c.Lawful fits) :
    c.option.Lawful fun o => ∀ a ∈ o, fits a where
  size_eq o ho := by
    cases o with
    | none => rfl
    | some a => simp only [Codec.option, List.length_cons, hc.size_eq a (ho a rfl), Nat.add_comm]
  decode_encode o rest ho := by
    cases o with
    | none => rfl
    | some a =>
      simp only [Codec.option, List.cons_append, hc.decode_encode a rest (ho a rfl), Except.map]
      rfl
  eq_encode bytes o rest h := by
    cases bytes with
    | nil => cases h
    | cons x bytes =>
      simp only [Codec.option] at h
      split_ifs at h with h0 h1
      · simp only [Except.ok.injEq, Prod.mk.injEq] at h
        obtain ⟨rfl, rfl⟩ := h
        exact ⟨by simp, by simp [Codec.option, h0]⟩
      · cases hd : c.decode bytes with
        | error e => rw [hd] at h; cases h
        | ok p =>
          rw [hd] at h
          simp only [Except.map, Except.ok.injEq, Prod.mk.injEq] at h
          obtain ⟨rfl, rfl⟩ := h
          obtain ⟨hf, rfl⟩ := hc.eq_encode _ _ _ hd
          exact ⟨by simpa using hf, by simp [Codec.option, h1]⟩

/-- Reading as many values as were written gives them back, after those that were read before. -/
theorem Lawful.decodeMany_flatMap {c : Codec α} {fits : α → Prop} (hc : c.Lawful fits)
    {as : List α} (h : ∀ a ∈ as, fits a) (acc : List α) (rest : List UInt8) :
    c.decodeMany as.length acc (as.flatMap c.encode ++ rest) = .ok (acc.reverse ++ as, rest) := by
  induction as generalizing acc with
  | nil => simp [decodeMany]
  | cons a as ih =>
    rw [List.forall_mem_cons] at h
    rw [List.length_cons, decodeMany, List.flatMap_cons, List.append_assoc,
      hc.decode_encode a _ h.1]
    simp only [ih h.2, List.reverse_cons, List.append_assoc, List.singleton_append]

theorem Lawful.eq_of_decodeMany {c : Codec α} {fits : α → Prop} (hc : c.Lawful fits) {n : Nat}
    {acc as : List α} {bytes rest : List UInt8} (h : c.decodeMany n acc bytes = .ok (as, rest)) :
    ∃ bs, as = acc.reverse ++ bs ∧ bs.length = n ∧ (∀ b ∈ bs, fits b) ∧
      bytes = bs.flatMap c.encode ++ rest := by
  induction n generalizing acc bytes with
  | zero =>
    simp only [decodeMany, Except.ok.injEq, Prod.mk.injEq] at h
    obtain ⟨rfl, rfl⟩ := h
    exact ⟨[], by simp⟩
  | succ n ih =>
    rw [decodeMany] at h
    split at h
    · rename_i a rest' hd
      obtain ⟨hf, rfl⟩ := hc.eq_encode _ _ _ hd
      obtain ⟨bs, rfl, hn, hbs, rfl⟩ := ih h
      refine ⟨a :: bs, by simp, by rw [List.length_cons, hn], ?_, by simp⟩
      rw [List.forall_mem_cons]
      exact ⟨hf, hbs⟩
    · cases h

/-! ### Scalars -/

theorem Lawful.u8 : Codec.u8.Lawful Always :=
  (Lawful.word 1).imap (fun _ h => ⟨trivial, UInt8.toNat_ofNat_of_lt' h⟩)
    fun b _ => ⟨b.toNat_lt, UInt8.ofNat_toNat⟩

theorem Lawful.u32 : Codec.u32.Lawful Always :=
  (Lawful.word 4).imap (fun _ h => ⟨trivial, UInt32.toNat_ofNat_of_lt' h⟩)
    fun b _ => ⟨b.toNat_lt, UInt32.ofNat_toNat⟩

theorem Lawful.u64 : Codec.u64.Lawful Always :=
  (Lawful.word 8).imap (fun _ h => ⟨trivial, UInt64.toNat_ofNat_of_lt' h⟩)
    fun b _ => ⟨b.toNat_lt, UInt64.ofNat_toNat⟩

theorem Lawful.i32 : Codec.i32.Lawful Always :=
  Lawful.u32.imap (fun _ _ => ⟨trivial, rfl⟩) fun _ _ => ⟨trivial, rfl⟩

theorem Lawful.single : Codec.single.Lawful Always :=
  Lawful.u32.imap (fun _ _ => ⟨trivial, rfl⟩) fun _ _ => ⟨trivial, rfl⟩

/-! ### Lists and buffers -/

theorem list_size (c : Codec α) (as : List α) :
    c.list.size as = 8 + (as.map c.size).sum := by
  simp only [Codec.list]
  induction as with
  | nil => rfl
  | cons a as ih => rw [List.foldr_cons, ih, List.map_cons, List.sum_cons]; omega

theorem flatMap_encode_length {c : Codec α} {fits : α → Prop} (hc : c.Lawful fits) {as : List α}
    (h : ∀ a ∈ as, fits a) : (as.flatMap c.encode).length = (as.map c.size).sum := by
  rw [List.length_flatMap]
  exact congrArg List.sum (List.map_congr_left fun a ha => (hc.size_eq a (h a ha)).symm)

theorem u64_encode_length (n : UInt64) : (Codec.u64.encode n).length = 8 :=
  littleEndian_length 8 n.toNat

theorem Lawful.list {c : Codec α} {fits : α → Prop} (hc : c.Lawful fits) :
    c.list.Lawful (ListFits fits) where
  size_eq as h := by
    rw [list_size]
    simp only [Codec.list, List.length_append, u64_encode_length, flatMap_encode_length hc h.2]
  decode_encode as rest h := by
    have hlen : (UInt64.ofNat as.length).toNat = as.length := UInt64.toNat_ofNat_of_lt' h.1
    simp only [Codec.list, List.append_assoc, Lawful.u64.decode_encode _ _ trivial, Except.bind,
      hlen, hc.decodeMany_flatMap h.2, List.reverse_nil, List.nil_append]
  eq_encode bytes as rest h := by
    simp only [Codec.list] at h
    cases hd : Codec.u64.decode bytes with
    | error e => rw [hd] at h; cases h
    | ok p =>
      obtain ⟨n, rest'⟩ := p
      rw [hd] at h
      obtain ⟨-, rfl⟩ := Lawful.u64.eq_encode _ _ _ hd
      obtain ⟨bs, rfl, hn, hbs, rfl⟩ := hc.eq_of_decodeMany h
      refine ⟨⟨?_, by simpa using hbs⟩, ?_⟩
      · rw [hn]
        exact n.toNat_lt
      · simp only [Codec.list, hn, UInt64.ofNat_toNat, List.append_assoc]

/-- A buffer is written as a list; its size is known without looking at its elements, which all take
`width` bytes. -/
theorem Lawful.array {c : Codec α} {width : Nat} (hc : c.Lawful Always) (hw : ∀ a, c.size a = width) :
    (c.array width).Lawful fun as => as.size < 2 ^ 64 where
  size_eq as h := by
    have hl := hc.list.size_eq as.toList ⟨h, fun _ _ => trivial⟩
    have hs : as.toList.map c.size = List.replicate as.size width :=
      List.eq_replicate_iff.2 ⟨by simp, by simp [hw]⟩
    rw [list_size, hs, List.sum_replicate_nat, Nat.mul_comm] at hl
    exact hl
  decode_encode as rest h := by
    simp only [Codec.array, hc.list.decode_encode as.toList rest ⟨h, fun _ _ => trivial⟩, Except.map]
  eq_encode bytes as rest h := by
    simp only [Codec.array] at h
    cases hd : c.list.decode bytes with
    | error e => rw [hd] at h; cases h
    | ok p =>
      rw [hd] at h
      simp only [Except.map, Except.ok.injEq, Prod.mk.injEq] at h
      obtain ⟨rfl, rfl⟩ := h
      obtain ⟨hf, he⟩ := hc.list.eq_encode _ _ _ hd
      exact ⟨hf.1, he⟩

/-- Positions in a list without repetitions, as long as they fit a tag. -/
theorem Lawful.enumeration [BEq α] [LawfulBEq α] {values : List α} (hnodup : values.Nodup)
    (hlen : values.length ≤ 2 ^ 32) : (Codec.enumeration values).Lawful (· ∈ values) where
  size_eq _ _ := (littleEndian_length 4 _).symm
  decode_encode a rest ha := by
    have hi : values.idxOf a < values.length := List.idxOf_lt_length_of_mem ha
    have ht : (UInt32.ofNat (values.idxOf a)).toNat = values.idxOf a :=
      UInt32.toNat_ofNat_of_lt' (Nat.lt_of_lt_of_le hi hlen)
    simp only [Codec.enumeration, Lawful.u32.decode_encode _ _ trivial, Except.bind, ht,
      List.getElem?_eq_getElem hi, List.getElem_idxOf]
  eq_encode bytes a rest h := by
    simp only [Codec.enumeration] at h
    cases hd : Codec.u32.decode bytes with
    | error e => rw [hd] at h; cases h
    | ok p =>
      obtain ⟨tag, rest'⟩ := p
      rw [hd] at h
      simp only [Except.bind] at h
      split at h
      · rename_i b hb
        simp only [Except.ok.injEq, Prod.mk.injEq] at h
        obtain ⟨rfl, rfl⟩ := h
        obtain ⟨-, rfl⟩ := Lawful.u32.eq_encode _ _ _ hd
        obtain ⟨hlt, rfl⟩ := List.getElem?_eq_some_iff.1 hb
        refine ⟨List.getElem_mem hlt, ?_⟩
        simp only [Codec.enumeration, hnodup.idxOf_getElem, UInt32.ofNat_toNat]
      · cases h

/-! ### The domain's records -/

theorem Lawful.vec3 {c : Codec α} (hc : c.Lawful Always) : (Codec.vec3 c).Lawful Always :=
  (hc.pair (hc.pair hc)).imap (fun _ _ => ⟨trivial, rfl⟩)
    fun _ _ => ⟨⟨trivial, trivial, trivial⟩, rfl⟩

theorem Lawful.vec4 {c : Codec α} (hc : c.Lawful Always) : (Codec.vec4 c).Lawful Always :=
  (hc.pair (hc.pair (hc.pair hc))).imap (fun _ _ => ⟨trivial, rfl⟩)
    fun _ _ => ⟨⟨trivial, trivial, trivial, trivial⟩, rfl⟩

theorem Lawful.matrix : Codec.matrix.Lawful Always :=
  (Lawful.vec4 (Lawful.vec4 Lawful.single)).imap (fun _ _ => ⟨trivial, rfl⟩)
    fun _ _ => ⟨trivial, rfl⟩

theorem Lawful.box : Codec.box.Lawful Always :=
  ((Lawful.vec3 Lawful.single).pair (Lawful.vec3 Lawful.single)).imap (fun _ _ => ⟨trivial, rfl⟩)
    fun _ _ => ⟨⟨trivial, trivial⟩, rfl⟩

theorem Lawful.brick : Codec.brick.Lawful Always :=
  (Lawful.box.pair (Lawful.u64.pair Lawful.u32)).imap (fun _ _ => ⟨trivial, rfl⟩)
    fun _ _ => ⟨⟨trivial, trivial, trivial⟩, rfl⟩

theorem Lawful.controlPoint : Codec.controlPoint.Lawful Always :=
  (Lawful.single.pair (Lawful.vec4 Lawful.single)).imap (fun _ _ => ⟨trivial, rfl⟩)
    fun _ _ => ⟨⟨trivial, trivial⟩, rfl⟩

theorem Lawful.transferFunction :
    Codec.transferFunction.Lawful fun t => t.points.length < 2 ^ 64 :=
  (Lawful.controlPoint.list.pair Lawful.u32).imap (fun _ h => ⟨h.1.1, rfl⟩)
    fun _ h => ⟨⟨⟨h, fun _ _ => trivial⟩, trivial⟩, rfl⟩

theorem Lawful.rect : Codec.rect.Lawful Always :=
  (Lawful.i32.pair (Lawful.i32.pair (Lawful.u32.pair Lawful.u32))).imap
    (fun _ _ => ⟨trivial, rfl⟩) fun _ _ => ⟨⟨trivial, trivial, trivial, trivial⟩, rfl⟩

/-- The images whose buffers have a length that fits. -/
def ImageFits (i : Image) : Prop := i.colour.size < 2 ^ 64 ∧ ∀ d ∈ i.depth, d.size < 2 ^ 64

theorem Lawful.image : Codec.image.Lawful ImageFits :=
  (Lawful.u64.pair (Lawful.u64.pair (Lawful.rect.pair ((Lawful.u8.array fun _ => rfl).pair
    (Lawful.single.array fun _ => rfl).option)))).imap
    (fun _ h => ⟨⟨h.2.2.2.1, h.2.2.2.2⟩, rfl⟩)
    fun _ h => ⟨⟨trivial, trivial, trivial, h.1, h.2⟩, rfl⟩

end Codec
end SortLast
