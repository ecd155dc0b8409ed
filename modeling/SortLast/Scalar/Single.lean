import SortLast.Scalar.Rounding

/-!
# Single-precision scalars

A scalar is its 32 bits, so two scalars are equal exactly if they are stored alike; the numerical
order identifies the two zeros and leaves not-a-number out.

* `Single.decode`, `Single.encode`: between bits and unpacked values.
* `Single.key`: the position of a scalar on the number line; the order compares keys.
* arithmetic, each operation rounded once; selection (`min`, `max`, `clamp`), which ignores an
  operand that is not a number; rounding to integers; conversions that truncate and saturate.
-/

namespace SortLast

/-- A single-precision scalar, given by its bits. -/
structure Single where
  /-- Sign, biased exponent and significand. -/
  bits : UInt32
  deriving DecidableEq, Repr, Inhabited, Hashable

namespace Single

/-- The bits without the sign. -/
def magnitude (x : Single) : Nat := x.bits.toNat % 0x80000000

/-- True if the sign bit is set. -/
def signBit (x : Single) : Bool := decide (0x80000000 ≤ x.bits.toNat)

/-- True for every not-a-number pattern. -/
def isNaN (x : Single) : Bool := decide (0x7f800000 < x.magnitude)

/-- True if the scalar is a number and not an infinity. -/
def isFinite (x : Single) : Bool := decide (x.magnitude < 0x7f800000)

/-- The scalar with the given sign and magnitude bits. -/
def ofParts (negative : Bool) (magnitude : Nat) : Single :=
  ⟨UInt32.ofNat (if negative then 0x80000000 + magnitude else magnitude)⟩

/-- Take a scalar apart. -/
def decode (x : Single) : Datum :=
  let e := x.magnitude / 0x800000
  let m := x.magnitude % 0x800000
  if x.isNaN then .nan
  else if e = 255 then .infinite x.signBit
  else if e = 0 then .finite x.signBit m (-149)
  else .finite x.signBit (0x800000 + m) (e - 150)

/-- Not a number, the pattern that arithmetic produces. -/
def nan : Single := ⟨0x7fc00000⟩

/-- Positive infinity. -/
def infinity : Single := ⟨0x7f800000⟩

/-- Negative infinity. -/
def negInfinity : Single := ⟨0xff800000⟩

/-- The scalar nearest to a datum. The significand is added to the shifted exponent, so that a
carry out of it moves to the next exponent, and the last one into infinity. -/
def encode (x : Datum) : Single :=
  match Format.binary32.convert x with
  | .nan => nan
  | .infinite s => ofParts s 0x7f800000
  | .finite s m e => ofParts s (((e + 149).toNat <<< 23) + m)

/-- Put together a datum that the 32-bit format holds. -/
def pack : Datum → Single
  | .nan => nan
  | .infinite s => ofParts s 0x7f800000
  | .finite s m e => ofParts s (((e + 149).toNat <<< 23) + m)

/-- The exact value as a rational; zero for infinities and not-a-number. -/
def toRat (x : Single) : Rat := x.decode.toRat

/-- The scalar nearest to an integer. -/
def ofInt (n : Int) : Single := encode (.ofInt false n)

/-- The scalar nearest to a natural number. -/
def ofNat (n : Nat) : Single := encode (.finite false n 0)

/-- The scalar nearest to `n / d`. -/
def ofFraction (negative : Bool) (n d : Nat) : Single :=
  pack (Format.binary32.round negative n d 0)

instance (n : Nat) : OfNat Single n := ⟨ofNat n⟩

instance : OfScientific Single where
  ofScientific m negativeExponent e :=
    if negativeExponent then ofFraction false m (Nat.pow 10 e) else ofFraction false (m * Nat.pow 10 e) 1

instance : Add Single := ⟨fun a b => pack (Format.binary32.add a.decode b.decode)⟩
instance : Sub Single := ⟨fun a b => pack (Format.binary32.sub a.decode b.decode)⟩
instance : Mul Single := ⟨fun a b => pack (Format.binary32.mul a.decode b.decode)⟩
instance : Div Single := ⟨fun a b => pack (Format.binary32.div a.decode b.decode)⟩
instance : Neg Single := ⟨fun a => ofParts (!a.signBit) a.magnitude⟩

/-- The square root, rounded once. -/
def sqrt (x : Single) : Single := pack (Format.binary32.sqrt x.decode)

/-! ### Order -/

/-- The position on the number line: both zeros lie at 0. -/
def key (x : Single) : Int := if x.signBit then -(x.magnitude : Int) else x.magnitude

/-- The position in the order of all bit patterns, where the negative zero comes before the
positive one. -/
def totalKey (x : Single) : Int := if x.signBit then -(x.magnitude : Int) - 1 else x.magnitude

/-- Strictly below, as numbers. -/
protected def lt (a b : Single) : Bool := !a.isNaN && !b.isNaN && decide (a.key < b.key)

/-- At most, as numbers. -/
protected def le (a b : Single) : Bool := !a.isNaN && !b.isNaN && decide (a.key ≤ b.key)

instance : LT Single := ⟨fun a b => a.lt b = true⟩
instance : LE Single := ⟨fun a b => a.le b = true⟩
instance (a b : Single) : Decidable (a < b) := inferInstanceAs (Decidable (a.lt b = true))
instance (a b : Single) : Decidable (a ≤ b) := inferInstanceAs (Decidable (a.le b = true))

/-- Equal as numbers: the zeros agree, and not-a-number differs from everything. -/
def sameValue (a b : Single) : Bool := !a.isNaN && !b.isNaN && decide (a.key = b.key)

/-- The smaller number; an operand that is not a number is ignored. -/
protected def min (a b : Single) : Single :=
  if a.isNaN then b else if b.isNaN then a else if b < a then b else a

/-- The larger number; an operand that is not a number is ignored. -/
protected def max (a b : Single) : Single :=
  if a.isNaN then b else if b.isNaN then a else if a < b then b else a

instance : Min Single := ⟨Single.min⟩
instance : Max Single := ⟨Single.max⟩

/-- The number moved into `[lo, hi]`; not-a-number stays. -/
def clamp (x lo hi : Single) : Single :=
  if x < lo then lo else if hi < x then hi else x

/-! ### Integers -/

/-- The greatest integral scalar at most `x`. -/
def floor (x : Single) : Single :=
  if x.isFinite then encode (.ofInt x.signBit x.decode.floor) else x

/-- The least integral scalar at least `x`. -/
def ceil (x : Single) : Single :=
  if x.isFinite then encode (.ofInt x.signBit x.decode.ceil) else x

/-- The nearest integral scalar, a half going away from zero. -/
def round (x : Single) : Single :=
  if x.isFinite then encode (.ofInt x.signBit x.decode.nearestAway) else x

/-- The integer part moved into `[lo, hi]`; not-a-number counts as zero. -/
def toIntWithin (x : Single) (lo hi : Int) : Int :=
  match x.decode with
  | .nan => 0
  | .infinite s => if s then lo else hi
  | d => max lo (min hi d.truncate)

/-- The integer part as a signed 32-bit number, saturating. -/
def toInt32 (x : Single) : Int32 := Int32.ofInt (x.toIntWithin (-2147483648) 2147483647)

/-- The integer part as an unsigned 32-bit number, saturating. -/
def toUInt32 (x : Single) : UInt32 := UInt32.ofNat (x.toIntWithin 0 4294967295).toNat

/-- The integer part as a byte, saturating. -/
def toUInt8 (x : Single) : UInt8 := UInt8.ofNat (x.toIntWithin 0 255).toNat

/-- The value between `a` and `b` at the fraction `s`. -/
def lerp (a b s : Single) : Single := a * (1 - s) + b * s

/-- The distance from 1 to the next larger scalar. -/
def epsilon : Single := ⟨0x34000000⟩

end Single

end SortLast
