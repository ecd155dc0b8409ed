import SortLast.Geometry.Matrix
import SortLast.Image
import SortLast.Transfer

/-!
# Codecs

A codec writes values of a type as bytes, reads one value off the front of a byte string and knows
the length of what it writes without writing it. Numbers are little endian and of fixed width,
lengths and indices are eight bytes, tags of alternatives four, and those of options one.

* `Codec`: the three functions; `Codec.Lawful` says that they belong together on the values that
  fit, since a length has to fit its eight bytes.
* `Codec.u8` … `Codec.bool`: the scalars.
* `Codec.pair`, `Codec.list`, `Codec.option`, `Codec.imap`: how composite values are written.
-/

namespace SortLast

/-- Why a byte string holds no value. -/
inductive DecodeError where
  | endOfBytes
  | badBool (found : UInt8)
  /-- An option tag that is neither 0 nor 1. -/
  | badOption (found : UInt8)
  /-- A tag that is no number of one of `count` alternatives. -/
  | badVariant (found : UInt32) (count : Nat)
  deriving DecidableEq, Repr

/-- The wording of a decoding error. -/
def DecodeError.message : DecodeError → String
  | .endOfBytes => "io error: unexpected end of file"
  | .badBool found =>
    "invalid u8 while decoding bool, expected 0 or 1, found " ++ toString found.toNat
  | .badOption found => "tag for enum is not valid, found " ++ toString found.toNat
  | .badVariant found count =>
    "invalid value: integer `" ++ toString found.toNat ++ "`, expected variant index 0 <= i < " ++
      toString count

/-- What reading a value off the front of a byte string gives: the value and the bytes after it. -/
abbrev Decoded (α : Type) := Except DecodeError (α × List UInt8)

/-- A way of writing values of a type as bytes. -/
structure Codec (α : Type) where
  size : α → Nat
  encode : α → List UInt8
  /-- Read a value off the front. -/
  decode : List UInt8 → Decoded α

namespace Codec

variable {α β : Type}

/-- A codec is lawful on the values that fit if reading accepts exactly what writing such values
produces, and sizes are right. -/
structure Lawful (c : Codec α) (fits : α → Prop) : Prop where
  size_eq : ∀ a, fits a → c.size a = (c.encode a).length
  decode_encode : ∀ a rest, fits a → c.decode (c.encode a ++ rest) = .ok (a, rest)
  eq_encode : ∀ bytes a rest, c.decode bytes = .ok (a, rest) → fits a ∧ bytes = c.encode a ++ rest

/-- The first `n` bytes and the bytes after them, if there are that many. -/
def takeBytes : Nat → List UInt8 → Option (List UInt8 × List UInt8)
  | 0, bytes => some ([], bytes)
  | _ + 1, [] => none
  | n + 1, b :: bytes => (takeBytes n bytes).map fun (taken, rest) => (b :: taken, rest)

/-- The `width` low bytes of a number, the lowest first. -/
def littleEndian : Nat → Nat → List UInt8
  | 0, _ => []
  | width + 1, n => UInt8.ofNat n :: littleEndian width (n / 256)

/-- The number whose bytes are given, the lowest first. -/
def ofLittleEndian : List UInt8 → Nat
  | [] => 0
  | b :: bytes => b.toNat + 256 * ofLittleEndian bytes

/-- A number of `width` bytes. -/
def word (width : Nat) : Codec Nat where
  size _ := width
  encode n := littleEndian width n
  decode bytes := match takeBytes width bytes with
    | some (taken, rest) => .ok (ofLittleEndian taken, rest)
    | none => .error .endOfBytes

/-- Write values of one type as values of another. -/
def imap (c : Codec α) (into : α → β) (back : β → α) : Codec β where
  size b := c.size (back b)
  encode b := c.encode (back b)
  decode bytes := (c.decode bytes).map fun (a, rest) => (into a, rest)

/-- Two values, one after the other. -/
def pair (c : Codec α) (d : Codec β) : Codec (α × β) where
  size p := c.size p.1 + d.size p.2
  encode p := c.encode p.1 ++ d.encode p.2
  decode bytes :=
    (c.decode bytes).bind fun (a, rest) => (d.decode rest).map fun (b, rest) => ((a, b), rest)

/-- A byte. -/
def u8 : Codec UInt8 := (word 1).imap UInt8.ofNat UInt8.toNat

/-- A word of four bytes. -/
def u32 : Codec UInt32 := (word 4).imap UInt32.ofNat UInt32.toNat

/-- A word of eight bytes. -/
def u64 : Codec UInt64 := (word 8).imap UInt64.ofNat UInt64.toNat

/-- A signed word of four bytes, in two's complement. -/
def i32 : Codec Int32 := u32.imap UInt32.toInt32 Int32.toUInt32

/-- A scalar, by its bits. -/
def single : Codec Single := u32.imap Single.mk Single.bits

/-- A truth value, as 0 or 1. -/
def bool : Codec Bool where
  size _ := 1
  encode b := [if b then 1 else 0]
  decode
    | [] => .error .endOfBytes
    | b :: rest => if b = 0 then .ok (false, rest) else if b = 1 then .ok (true, rest)
      else .error (.badBool b)

/-- An optional value, after 0 or 1. -/
def option (c : Codec α) : Codec (Option α) where
  size
    | none => 1
    | some a => 1 + c.size a
  encode
    | none => [0]
    | some a => 1 :: c.encode a
  decode
    | [] => .error .endOfBytes
    | b :: rest =>
      if b = 0 then .ok (none, rest)
      else if b = 1 then (c.decode rest).map fun (a, rest) => (some a, rest)
      else .error (.badOption b)

/-- Read `n` values, after those in `acc`, which stand in reverse. -/
def decodeMany (c : Codec α) : Nat → List α → List UInt8 → Decoded (List α)
  | 0, acc, bytes => .ok (acc.reverse, bytes)
  | n + 1, acc, bytes =>
    match c.decode bytes with
    | .ok (a, rest) => decodeMany c n (a :: acc) rest
    | .error e => .error e

/-- A list, after its length. -/
def list (c : Codec α) : Codec (List α) where
  size as := as.foldr (fun a n => c.size a + n) 8
  encode as := u64.encode (UInt64.ofNat as.length) ++ as.flatMap c.encode
  decode bytes := (u64.decode bytes).bind fun (n, rest) => c.decodeMany n.toNat [] rest

/-- An array of values that all take `width` bytes, after its length. -/
def array (c : Codec α) (width : Nat) : Codec (Array α) where
  size as := 8 + width * as.size
  encode as := c.list.encode as.toList
  decode bytes := (c.list.decode bytes).map fun (as, rest) => (as.toArray, rest)

/-- One of `values`, by its position. -/
def enumeration [BEq α] (values : List α) : Codec α where
  size _ := 4
  encode a := u32.encode (UInt32.ofNat (values.idxOf a))
  decode bytes := (u32.decode bytes).bind fun (tag, rest) =>
    match values[tag.toNat]? with
    | some a => .ok (a, rest)
    | none => .error (.badVariant tag values.length)

/-! ### The domain's records -/

/-- Three components. -/
def vec3 (c : Codec α) : Codec (Vec3 α) :=
  (c.pair (c.pair c)).imap (fun (x, y, z) => ⟨x, y, z⟩) fun v => (v.x, v.y, v.z)

/-- Four components. -/
def vec4 (c : Codec α) : Codec (Vec4 α) :=
  (c.pair (c.pair (c.pair c))).imap (fun (x, y, z, w) => ⟨x, y, z, w⟩) fun v => (v.x, v.y, v.z, v.w)

/-- A matrix, column by column. -/
def matrix : Codec Matrix :=
  (vec4 (vec4 single)).imap (fun v => ⟨v.x, v.y, v.z, v.w⟩) fun m => ⟨m.x, m.y, m.z, m.w⟩

/-- A box, by its corners. -/
def box : Codec Box :=
  ((vec3 single).pair (vec3 single)).imap (fun (lo, hi) => ⟨lo, hi⟩) fun b => (b.min, b.max)

/-- A brick. -/
def brick : Codec Brick :=
  (box.pair (u64.pair u32)).imap (fun (b, p, f) => ⟨b, p, f⟩) fun b =>
    (b.bounds, b.participant, b.frame)

/-- A control point. -/
def controlPoint : Codec ControlPoint :=
  (single.pair (vec4 single)).imap (fun (v, c) => ⟨v, c⟩) fun p => (p.value, p.colour)

/-- A transfer function, whose points are not checked. -/
def transferFunction : Codec TransferFunction :=
  (controlPoint.list.pair u32).imap (fun (ps, n) => ⟨ps, n⟩) fun t => (t.points, t.discrete)

/-- A rectangle. -/
def rect : Codec Rect :=
  (i32.pair (i32.pair (u32.pair u32))).imap (fun (x, y, w, h) => ⟨x, y, w, h⟩) fun r =>
    (r.x, r.y, r.width, r.height)

/-- An image, whose buffers are not checked. -/
def image : Codec Image :=
  (u64.pair (u64.pair (rect.pair ((array u8 1).pair (option (array single 4)))))).imap
    (fun (p, f, r, c, d) => ⟨p, f, r, c, d⟩) fun i =>
      (i.participant, i.frame, i.rect, i.colour, i.depth)

end Codec

end SortLast
