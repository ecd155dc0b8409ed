import SortLast.Proofs.Wire.Message

/-!
# The format of messages

A message is written as a row of numbers of fixed width, lowest byte first. The row begins with the
number of the message's kind; lists begin with their length, and truth values and options are one
byte, 0 or 1. The codecs write this row and read nothing else.

* `Token`: a number of one, four or eight bytes.
* `Message.tokens`: the row of a message.
* `Message.payload_eq_tokens`: the codecs write the row.
* `Message.decode_exact`: reading and writing are exact inverses of each other.
-/

namespace SortLast

/-- A number on the wire. -/
inductive Token where
  | byte (v : UInt8)
  | word (v : UInt32)
  | long (v : UInt64)
  deriving DecidableEq, Repr

namespace Token

/-- The number of bytes. -/
def width : Token → Nat
  | byte _ => 1
  | word _ => 4
  | long _ => 8

/-- The number. -/
def value : Token → Nat
  | byte v => v.toNat
  | word v => v.toNat
  | long v => v.toNat

/-- The bytes of a number, the lowest first. -/
def bytes (t : Token) : List UInt8 :=
  (List.range t.width).map fun i => UInt8.ofNat (t.value / 256 ^ i)

/-- The length in front of a list. -/
def count (n : Nat) : Token := long (UInt64.ofNat n)

/-- A truth value. -/
def flag (b : Bool) : Token := byte (if b then 1 else 0)

/-- A scalar, by its bits. -/
def scalar (x : Single) : Token := word x.bits

/-- A signed number, in two's complement. -/
def signed (v : Int32) : Token := word v.toUInt32

/-- The coordinates of a point. -/
def point (p : Point) : List Token := [scalar p.x, scalar p.y, scalar p.z]

/-- Four scalars, as in a colour or in a column of a matrix. -/
def quad (c : Vec4 Single) : List Token := [scalar c.x, scalar c.y, scalar c.z, scalar c.w]

/-- A control point: its value, then its colour. -/
def controlPoint (p : ControlPoint) : List Token := scalar p.value :: quad p.colour

/-- A brick: its corners, its participant and its time step. -/
def brick (b : Brick) : List Token :=
  point b.bounds.min ++ point b.bounds.max ++ [long b.participant, word b.frame]

/-- A rectangle: its corner, then its size. -/
def rect (r : Rect) : List Token := [signed r.x, signed r.y, word r.width, word r.height]

/-- A depth per pixel, or none. -/
def depth : Option (Array Single) → List Token
  | none => [flag false]
  | some d => flag true :: count d.size :: d.toList.map scalar

end Token

open Token in
/-- The numbers that a message is written as. -/
def Message.tokens : Message → List Token
  | hello v => [word 0, byte v]
  | reason r => [word 1, word (UInt32.ofNat r.ctorIdx)]
  | int32 v => [word 2, signed v]
  | float32 v => [word 3, scalar v]
  | bool v => [word 4, flag v]
  | vector3 v => word 5 :: point v
  | matrix m => word 6 :: [m.x, m.y, m.z, m.w].flatMap quad
  | winDims w h => [word 7, signed w, signed h]
  | transferFunction t =>
    word 8 :: count t.points.length :: (t.points.flatMap controlPoint ++ [word t.discrete])
  | bricks bs => word 9 :: count bs.length :: bs.flatMap brick
  | image i =>
    word 10 :: long i.participant :: long i.frame ::
      (rect i.rect ++ count i.colour.size :: (i.colour.toList.map byte ++ depth i.depth))

/-! ### What the codecs write -/

namespace Codec

variable {α β : Type}

theorem littleEndian_eq_map (width n : Nat) :
    littleEndian width n = (List.range width).map fun i => UInt8.ofNat (n / 256 ^ i) := by
  induction width generalizing n with
  | zero => rfl
  | succ width ih =>
    rw [littleEndian, ih, List.range_succ_eq_map, List.map_cons, List.map_map, Nat.pow_zero,
      Nat.div_one]
    congr 1
    refine List.map_congr_left fun i _ => ?_
    rw [Function.comp_apply, Nat.pow_succ', Nat.div_div_eq_div_mul]

/-- A codec writes values as rows of numbers. -/
def Writes (c : Codec α) (tokens : α → List Token) : Prop :=
  ∀ a, c.encode a = (tokens a).flatMap Token.bytes

theorem writes_u8 : Writes u8 fun v => [.byte v] := fun v => by
  rw [List.flatMap_singleton]
  exact littleEndian_eq_map 1 v.toNat

theorem writes_u32 : Writes u32 fun v => [.word v] := fun v => by
  rw [List.flatMap_singleton]
  exact littleEndian_eq_map 4 v.toNat

theorem writes_u64 : Writes u64 fun v => [.long v] := fun v => by
  rw [List.flatMap_singleton]
  exact littleEndian_eq_map 8 v.toNat

theorem writes_bool : Writes bool fun b => [.flag b] := fun b => by cases b <;> rfl

theorem Writes.imap {c : Codec α} {tokens : α → List Token} (hc : Writes c tokens) (into : α → β)
    (back : β → α) : Writes (c.imap into back) fun b => tokens (back b) :=
  fun b => hc (back b)

theorem Writes.pair {c : Codec α} {d : Codec β} {tokens : α → List Token}
    {tokens' : β → List Token} (hc : Writes c tokens) (hd : Writes d tokens') :
    Writes (c.pair d) fun p => tokens p.1 ++ tokens' p.2 := fun p => by
  rw [List.flatMap_append, ← hc, ← hd]
  rfl

theorem Writes.option {c : Codec α} {tokens : α → List Token} (hc : Writes c tokens) :
    Writes c.option fun
      | none => [.flag false]
      | some a => .flag true :: tokens a := fun o => by
  cases o with
  | none => rfl
  | some a =>
    rw [List.flatMap_cons, ← hc]
    rfl

theorem Writes.list {c : Codec α} {tokens : α → List Token} (hc : Writes c tokens) :
    Writes c.list fun as => .count as.length :: as.flatMap tokens := fun as => by
  have helems : as.flatMap c.encode = (as.flatMap tokens).flatMap Token.bytes := by
    rw [List.flatMap_assoc]
    exact congrArg (List.flatMap · as) (funext hc)
  have hlength := writes_u64 (UInt64.ofNat as.length)
  rw [List.flatMap_singleton] at hlength
  rw [List.flatMap_cons, ← helems, Token.count, ← hlength]
  rfl

/-- A buffer of elements that are one number each. -/
theorem Writes.array {c : Codec α} {token : α → Token} (hc : Writes c fun a => [token a])
    (width : Nat) : Writes (c.array width) fun as => .count as.size :: as.toList.map token :=
  fun as => by
    show _ = (Token.count as.size :: as.toList.map token).flatMap Token.bytes
    rw [← List.flatMap_pure_eq_map]
    exact hc.list as.toList

/-- The rows only have to agree. -/
theorem Writes.congr {c : Codec α} {tokens tokens' : α → List Token} (hc : Writes c tokens)
    (h : ∀ a, tokens a = tokens' a) : Writes c tokens' := fun a => by rw [← h a, hc a]

theorem writes_single : Writes single fun x => [.scalar x] := writes_u32.imap _ _

theorem writes_i32 : Writes i32 fun v => [.signed v] := writes_u32.imap _ _

theorem writes_point : Writes (vec3 single) Token.point :=
  (writes_single.pair (writes_single.pair writes_single)).imap _ _

theorem writes_quad : Writes (vec4 single) Token.quad :=
  (writes_single.pair (writes_single.pair (writes_single.pair writes_single))).imap _ _

theorem writes_matrix : Writes matrix fun m => [m.x, m.y, m.z, m.w].flatMap Token.quad :=
  ((writes_quad.pair (writes_quad.pair (writes_quad.pair writes_quad))).imap _ _ |>.imap _ _).congr
    fun m => by simp only [List.flatMap_cons, List.flatMap_nil, List.append_nil]

theorem writes_brick : Writes brick Token.brick :=
  (((writes_point.pair writes_point).imap _ _).pair (writes_u64.pair writes_u32)).imap _ _

theorem writes_controlPoint : Writes controlPoint Token.controlPoint :=
  (writes_single.pair writes_quad).imap _ _

theorem writes_rect : Writes rect Token.rect :=
  (writes_i32.pair (writes_i32.pair (writes_u32.pair writes_u32))).imap _ _

theorem writes_transferFunction : Writes transferFunction fun t =>
    .count t.points.length :: (t.points.flatMap Token.controlPoint ++ [.word t.discrete]) :=
  (writes_controlPoint.list.pair writes_u32).imap _ _

theorem writes_depth : Writes (option (array single 4)) Token.depth :=
  (writes_single.array 4).option.congr fun d => by cases d <;> rfl

theorem writes_image : Writes image fun i =>
    .long i.participant :: .long i.frame ::
      (Token.rect i.rect ++ .count i.colour.size ::
        (i.colour.toList.map .byte ++ Token.depth i.depth)) :=
  (writes_u64.pair (writes_u64.pair (writes_rect.pair ((writes_u8.array 1).pair writes_depth)))).imap _ _

end Codec

namespace Message

theorem writes_reason : Codec.Writes reasonCodec fun r => [.word (UInt32.ofNat r.ctorIdx)] := by
  intro r
  rw [← Codec.writes_u32]
  cases r <;> rfl

/-- A message is its tag and what the codec of its kind writes. -/
theorem payload_of_body {α : Type} {c : Codec α} {tokens : α → List Token}
    (hc : Codec.Writes c tokens) {m : Message} (a : α) (hbody : m.encodeBody = c.encode a)
    (htokens : m.tokens = .word m.tag :: tokens a) :
    m.payload = m.tokens.flatMap Token.bytes := by
  have htag := Codec.writes_u32 m.tag
  rw [List.flatMap_singleton] at htag
  rw [htokens, List.flatMap_cons, ← hc a, ← hbody, ← htag]
  rfl

/-- The codecs write the row of a message. -/
theorem payload_eq_tokens (m : Message) : m.payload = m.tokens.flatMap Token.bytes := by
  cases m with
  | hello v => exact payload_of_body Codec.writes_u8 v rfl rfl
  | reason r => exact payload_of_body writes_reason r rfl rfl
  | int32 v => exact payload_of_body Codec.writes_i32 v rfl rfl
  | float32 v => exact payload_of_body Codec.writes_single v rfl rfl
  | bool v => exact payload_of_body Codec.writes_bool v rfl rfl
  | vector3 v => exact payload_of_body Codec.writes_point v rfl rfl
  | matrix m => exact payload_of_body Codec.writes_matrix m rfl rfl
  | winDims w h =>
    exact payload_of_body (Codec.writes_i32.pair Codec.writes_i32) (w, h) rfl rfl
  | transferFunction t => exact payload_of_body Codec.writes_transferFunction t rfl rfl
  | bricks bs => exact payload_of_body Codec.writes_brick.list bs rfl rfl
  | image i => exact payload_of_body Codec.writes_image i rfl rfl

/-! ### Reading and writing -/

theorem frame_drop (m : Message) : m.frame.drop 4 = m.payload := by
  rw [frame_eq, ← header_length m, List.drop_left]

theorem decode_eq_ok_iff {b rest : List UInt8} {m : Message} :
    codec.decode b = .ok (m, rest) ↔ m.Fits ∧ b = m.payload ++ rest := by
  constructor
  · exact codec_lawful.eq_encode b m rest
  · rintro ⟨hm, rfl⟩
    exact codec_lawful.decode_encode m rest hm

theorem ofPayload?_eq_ok_iff {b : List UInt8} {m : Message} :
    ofPayload? b = .ok m ↔ m.Fits ∧ m.payload <+: b := by
  constructor
  · intro h
    unfold ofPayload? at h
    cases hd : codec.decode b with
    | error e => rw [hd] at h; cases h
    | ok p =>
      rw [hd] at h
      cases h
      obtain ⟨hm, hb⟩ := decode_eq_ok_iff.1 hd
      exact ⟨hm, p.2, hb.symm⟩
  · rintro ⟨hm, rest, rfl⟩
    rw [ofPayload?, decode_eq_ok_iff.2 ⟨hm, rfl⟩]
    rfl

/-- What follows the length in a frame is the row of its message. Reading gives a message exactly
from the byte strings that begin with this part of its frame, whatever follows it, and uses up this
part only; so a message is read back from it, and no other message is written so. -/
theorem decode_exact (m : Message) :
    m.frame.drop 4 = m.tokens.flatMap Token.bytes ∧
      (∀ b, ofPayload? b = .ok m ↔ m.Fits ∧ m.frame.drop 4 <+: b) ∧
      (∀ b rest, codec.decode b = .ok (m, rest) ↔ m.Fits ∧ b = m.frame.drop 4 ++ rest) ∧
      (m.Fits → ofPayload? (m.frame.drop 4) = .ok m) ∧
      ∀ n : Message, m.Fits → n.Fits → m.frame.drop 4 = n.frame.drop 4 → m = n := by
  simp only [frame_drop]
  refine ⟨m.payload_eq_tokens, fun _ => ofPayload?_eq_ok_iff, fun _ _ => decode_eq_ok_iff,
    ofPayload?_payload, ?_⟩
  intro n hm hn h
  have hread := ofPayload?_payload hm
  rw [h, ofPayload?_payload hn] at hread
  cases hread
  rfl

end Message
end SortLast
