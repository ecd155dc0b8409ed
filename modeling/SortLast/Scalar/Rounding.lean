/-!
# Rounding to a binary format

An unpacked binary floating-point value, and the rounding of an exact quotient to a format. Every
operation computes the exact result as a fraction times a power of two and rounds it once, to the
nearest value of the format, a tie going to the even significand.

* `Datum`: a value as sign, significand and exponent, an infinity, or not a number.
* `Format.round`: the nearest value of a format to `n / d * 2 ^ e`.
* `Format.add`, `Format.mul`, `Format.div`, `Format.sqrt`: the operations, rounded once.
* `Datum.floor`, `Datum.ceil`, `Datum.truncate`: exact neighbouring integers.
-/

namespace SortLast

/-- A floating-point value with its parts taken apart. -/
inductive Datum where
  | nan
  /-- An infinity; `true` is the negative one. -/
  | infinite (negative : Bool)
  /-- The value `significand * 2 ^ exponent`, negated if `negative`. A zero keeps its sign. -/
  | finite (negative : Bool) (significand : Nat) (exponent : Int)
  deriving DecidableEq, Repr, Inhabited

/-- A binary format: how many bits a significand has, and between which exponents it stands. -/
structure Format where
  precision : Nat
  /-- Exponent of the smallest positive value. -/
  minExponent : Int
  /-- Exponent of the last bit of the largest value. -/
  maxExponent : Int
  deriving DecidableEq, Repr

namespace Format

/-- The 32-bit interchange format. -/
def binary32 : Format := ⟨24, -149, 104⟩

/-- The 64-bit interchange format. -/
def binary64 : Format := ⟨53, -1074, 971⟩

/-- The integer nearest to `n / d`; a half goes to the even neighbour. -/
def nearestEven (n d : Nat) : Nat :=
  let q := n / d
  let r := n % d
  if 2 * r < d then q else if d < 2 * r then q + 1 else q + q % 2

/-- `n / d * 2 ^ e` as a fraction of natural numbers. -/
def scaled (n d : Nat) (e : Int) : Nat × Nat :=
  (n <<< e.toNat, d <<< (-e).toNat)

/-- The greatest `k` with `2 ^ k ≤ n / d`, for positive `n` and `d`. -/
def log2Quotient (n d : Nat) : Int :=
  let k : Int := n.log2 - d.log2
  if d <<< k.toNat ≤ n <<< (-k).toNat then k else k - 1

/-- The exponent of the last significand bit of the format's values around `n / d * 2 ^ e`. -/
def ulpExponent (f : Format) (n d : Nat) (e : Int) : Int :=
  max f.minExponent (log2Quotient n d + e - (f.precision - 1))

/-- The value of the format nearest to `n / d * 2 ^ e`, with the given sign. -/
def round (f : Format) (negative : Bool) (n d : Nat) (e : Int) : Datum :=
  if n = 0 then .finite negative 0 f.minExponent
  else
    let u := f.ulpExponent n d e
    let (a, b) := scaled n d (e - u)
    let m := nearestEven a b
    if f.maxExponent < u ∨ (u = f.maxExponent ∧ Nat.pow 2 f.precision ≤ m) then .infinite negative
    else .finite negative m u

/-- The value of the format nearest to a given value. -/
def convert (f : Format) : Datum → Datum
  | .finite s m e => f.round s m 1 e
  | x => x

/-- `m`, negated if `negative`. -/
def signed (negative : Bool) (m : Nat) : Int :=
  if negative then -(m : Int) else m

/-- The sum, rounded once. An exact cancellation gives the positive zero. -/
def add (f : Format) : Datum → Datum → Datum
  | .nan, _ => .nan
  | _, .nan => .nan
  | .infinite s, .infinite t => if s = t then .infinite s else .nan
  | .infinite s, .finite .. => .infinite s
  | .finite .., .infinite t => .infinite t
  | .finite s m e, .finite t n d =>
    let low := min e d
    let sum := signed s (m <<< (e - low).toNat) + signed t (n <<< (d - low).toNat)
    if sum = 0 then .finite (s && t) 0 f.minExponent
    else f.round (decide (sum < 0)) sum.natAbs 1 low

end Format

/-- The value with the opposite sign. -/
def Datum.neg : Datum → Datum
  | .nan => .nan
  | .infinite s => .infinite !s
  | .finite s m e => .finite (!s) m e

namespace Format

/-- The difference, rounded once. -/
def sub (f : Format) (x y : Datum) : Datum := f.add x y.neg

/-- The product, rounded once. -/
def mul (f : Format) : Datum → Datum → Datum
  | .nan, _ => .nan
  | _, .nan => .nan
  | .infinite s, .infinite t => .infinite (s != t)
  | .infinite s, .finite t n _ => if n = 0 then .nan else .infinite (s != t)
  | .finite s m _, .infinite t => if m = 0 then .nan else .infinite (s != t)
  | .finite s m e, .finite t n d => f.round (s != t) (m * n) 1 (e + d)

/-- The quotient, rounded once. -/
def div (f : Format) : Datum → Datum → Datum
  | .nan, _ => .nan
  | _, .nan => .nan
  | .infinite _, .infinite _ => .nan
  | .infinite s, .finite t _ _ => .infinite (s != t)
  | .finite s _ _, .infinite t => .finite (s != t) 0 f.minExponent
  | .finite s m e, .finite t n d =>
    if n = 0 then (if m = 0 then .nan else .infinite (s != t))
    else f.round (s != t) m n (e - d)

end Format

/-- The greatest natural number whose square is at most `n`, found bit by bit from `2 ^ bits` down,
starting from `root`. -/
def rootFrom (n root : Nat) : Nat → Nat
  | 0 => root
  | bits + 1 =>
    let next := root + Nat.pow 2 bits
    if next * next ≤ n then rootFrom n next bits else rootFrom n root bits

/-- The greatest natural number whose square is at most `n`. -/
def floorRoot (n : Nat) : Nat := rootFrom n 0 (n.log2 / 2 + 1)

namespace Format

/-- The square root, rounded once. The root is taken of a significand widened by so many bits that
a remainder only decides on which side of a tie the root lies. -/
def sqrt (f : Format) : Datum → Datum
  | .nan => .nan
  | .infinite s => if s then .nan else .infinite false
  | .finite s m e =>
    if m = 0 then .finite s 0 f.minExponent
    else if s then .nan
    else
      let wide := 2 * f.precision + 4
      let shift := if (e - wide) % 2 = 0 then wide else wide + 1
      let n := m <<< shift
      let r := floorRoot n
      let sticky := if r * r = n then 0 else 1
      f.round false (2 * r + sticky) 1 ((e - shift) / 2 - 1)

end Format

namespace Datum

/-- The greatest integer at most `m * 2 ^ e`, for either sign; zero if there is none. -/
def floor : Datum → Int
  | .finite s m e =>
    let (a, b) := Format.scaled m 1 e
    (Format.signed s a).fdiv b
  | _ => 0

/-- The least integer at least the value; zero if there is none. -/
def ceil (x : Datum) : Int := -x.neg.floor

/-- The integer part, towards zero; zero if there is none. -/
def truncate : Datum → Int
  | .finite s m e =>
    let (a, b) := Format.scaled m 1 e
    Format.signed s (a / b)
  | _ => 0

/-- The nearest integer, a half going away from zero; zero if there is none. -/
def nearestAway : Datum → Int
  | .finite s m e =>
    let (a, b) := Format.scaled m 1 e
    Format.signed s ((2 * a + b) / (2 * b))
  | _ => 0

/-- The integral datum `n`, which takes the given sign if it is zero. -/
def ofInt (negativeZero : Bool) (n : Int) : Datum :=
  .finite (if n = 0 then negativeZero else decide (n < 0)) n.natAbs 0

/-- The value as an exact rational; zero if it is not finite. -/
def toRat : Datum → Rat
  | .finite s m e =>
    let (a, b) := Format.scaled m 1 e
    mkRat (Format.signed s a) b
  | _ => 0

end Datum

end SortLast
