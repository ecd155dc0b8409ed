import SortLast.Scalar.Single

/-!
# Sine and cosine

The circular functions of a scalar, rounded to the nearest scalar. The argument is exact; it is
reduced modulo a full turn and the alternating series is summed in fixed point with 400 fractional
bits, far beyond what a 24-bit significand and a 128-bit range need.

* `FixedPoint.halfTurn`: half a turn, from two arctangents.
* `Single.sin`, `Single.cos`.
-/

namespace SortLast

namespace FixedPoint

/-- Fractional bits of a fixed-point number. -/
def fraction : Nat := 400

/-- The number one. -/
def one : Nat := 1 <<< fraction

/-- Sum `terms` terms of the series of `arctan (1 / k)`, given the current power of `1 / k` and the
current odd divisor. -/
def arctanInverseFrom (k power divisor : Nat) : Nat → Int
  | 0 => 0
  | terms + 1 =>
    (power / divisor : Nat) - arctanInverseFrom k (power / (k * k)) (divisor + 2) terms

/-- The arctangent of `1 / k`. -/
def arctanInverse (k : Nat) : Int := arctanInverseFrom k (one / k) 1 fraction

/-- Half a turn in radians. -/
def halfTurn : Nat := (16 * arctanInverse 5 - 4 * arctanInverse 239).toNat

/-- The product of two fixed-point numbers, rounded down. -/
def times (x y : Nat) : Nat := (x * y) >>> fraction

/-- Sum `terms` terms of an alternating series of powers over factorials: the current term, and the
argument and index of the step to the next one. -/
def alternatingFrom (x term index : Nat) : Nat → Int
  | 0 => 0
  | terms + 1 =>
    (term : Int) -
      alternatingFrom x (times (times term x) x / (index * (index + 1))) (index + 2) terms

/-- The sine of a reduced argument. -/
def sin (x : Nat) : Int := alternatingFrom x x 2 100

/-- The cosine of a reduced argument. -/
def cos (x : Nat) : Int := alternatingFrom x one 1 100

/-- The fixed-point number `m * 2 ^ e`, less whole turns. -/
def reduced (m : Nat) (e : Int) : Nat :=
  let shift := e + fraction
  ((m <<< shift.toNat) >>> (-shift).toNat) % (2 * halfTurn)

/-- The scalar nearest to a fixed-point number. -/
def toSingle (x : Int) : Single :=
  Single.pack (Format.binary32.round (decide (x < 0)) x.natAbs 1 (-fraction))

end FixedPoint

namespace Single

/-- The sine of an angle in radians. -/
def sin (x : Single) : Single :=
  match x.decode with
  | .finite s m e =>
    if m = 0 then x
    else
      let y := FixedPoint.sin (FixedPoint.reduced m e)
      FixedPoint.toSingle (if s then -y else y)
  | _ => nan

/-- The cosine of an angle in radians. -/
def cos (x : Single) : Single :=
  match x.decode with
  | .finite _ m e => FixedPoint.toSingle (FixedPoint.cos (FixedPoint.reduced m e))
  | _ => nan

end Single

end SortLast
