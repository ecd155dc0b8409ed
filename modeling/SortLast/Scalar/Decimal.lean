import SortLast.Scalar.Single

/-!
# Decimal text of scalars

A scalar is written with the fewest digits that read back as the same scalar, and read by rounding
the decimal once.

* `Decimal`: a decimal number `digits * 10 ^ exponent`.
* `Single.shortest`: the decimal with the fewest digits in the interval of reals that round to a
  scalar; of two such decimals the nearer, and on a tie the larger.
* `DecimalStyle`: how a decimal is laid out, with the styles `plain` and `marked`.
* `Single.parse`: reading a scalar from text.
-/

namespace SortLast

/-- The number `digits * 10 ^ exponent`. -/
structure Decimal where
  /-- The significant digits, read as one natural number. -/
  digits : Nat
  /-- The power of ten that scales them. -/
  exponent : Int
  deriving DecidableEq, Repr

namespace Decimal

/-- Drop trailing zeros, at most `fuel` of them. -/
def strip (digits : Nat) (exponent : Int) : Nat → Decimal
  | 0 => ⟨digits, exponent⟩
  | fuel + 1 =>
    if digits % 10 = 0 ∧ digits ≠ 0 then strip (digits / 10) (exponent + 1) fuel
    else ⟨digits, exponent⟩

/-- The digits as characters. -/
def text (d : Decimal) : List Char := Nat.toDigits 10 d.digits

/-- The power of ten of the leading digit. -/
def leading (d : Decimal) : Int := d.exponent + d.text.length - 1

end Decimal

/-- The fraction `num / den`, whose denominator is positive wherever one is made. -/
structure Fraction where
  num : Nat
  den : Nat

namespace Fraction

/-- The fraction `m * 2 ^ e`. -/
def binary (m : Nat) (e : Int) : Fraction :=
  let (a, b) := Format.scaled m 1 e
  ⟨a, b⟩

/-- The fraction `m * 10 ^ e`. -/
def decimal (m : Nat) (e : Int) : Fraction := ⟨m * Nat.pow 10 e.toNat, Nat.pow 10 (-e).toNat⟩

/-- At most, as numbers. -/
protected def le (x y : Fraction) : Bool := decide (x.num * y.den ≤ y.num * x.den)

/-- Strictly below, as numbers. -/
protected def lt (x y : Fraction) : Bool := decide (x.num * y.den < y.num * x.den)

/-- True if the fraction is strictly below the middle of the other two. -/
def belowMiddle (x lo hi : Fraction) : Bool :=
  decide (2 * x.num * (lo.den * hi.den) < (lo.num * hi.den + hi.num * lo.den) * x.den)

/-- The least `p` from `start` on, at most `fuel` steps away, with the fraction below `10 ^ p`. -/
def tenExponentFrom (x : Fraction) (start : Int) : Nat → Int
  | 0 => start
  | fuel + 1 => if x.lt (decimal 1 start) then start else tenExponentFrom x (start + 1) fuel

end Fraction

/-- The reals that a rounding takes to one value. -/
structure RoundingInterval where
  value : Fraction
  /-- Half way to the next smaller value. -/
  low : Fraction
  /-- Half way to the next larger value. -/
  high : Fraction
  /-- Whether the two ends round to the value. -/
  closed : Bool

namespace RoundingInterval

/-- The reals that round to `m * 2 ^ e`. At a power of two the next smaller value is half as far
away; the ends belong to the interval if the significand is even. -/
def of (m : Nat) (e : Int) : RoundingInterval where
  value := .binary (4 * m) (e - 2)
  low := .binary (4 * m - if m = 0x800000 ∧ e ≠ -149 then 1 else 2) (e - 2)
  high := .binary (4 * m + 2) (e - 2)
  closed := m % 2 = 0

/-- True for the numbers in the interval. -/
def contains (i : RoundingInterval) (x : Fraction) : Bool :=
  if i.closed then i.low.le x && x.le i.high else i.low.lt x && x.lt i.high

/-- The best number in the interval among the two neighbours of its value on the grid of multiples
of `10 ^ unit`, if one of them lies in it. -/
def onGrid (i : RoundingInterval) (unit : Int) : Option Decimal :=
  let grid := Fraction.decimal 1 unit
  let below := i.value.num * grid.den / (i.value.den * grid.num)
  let lower := Fraction.decimal below unit
  let upper := Fraction.decimal (below + 1) unit
  match i.contains lower, i.contains upper with
  | true, true => some ⟨if i.value.belowMiddle lower upper then below else below + 1, unit⟩
  | true, false => some ⟨below, unit⟩
  | false, true => some ⟨below + 1, unit⟩
  | false, false => none

/-- The decimal with the fewest digits in the interval. Nine digits tell any two scalars apart. -/
def shortest (i : RoundingInterval) : Decimal :=
  let p := i.value.tenExponentFrom (-45) 90
  match (List.range 9).findSome? fun (k : Nat) => i.onGrid (p - (k + 1)) with
  | some d => Decimal.strip d.digits d.exponent 12
  | none => ⟨0, 0⟩

end RoundingInterval

/-- How a decimal is laid out. -/
structure DecimalStyle where
  /-- Whether an integral number ends in `.0`. -/
  keepPoint : Bool
  /-- Whether a number with this leading power of ten is written without an exponent. -/
  positional : Int → Bool

namespace DecimalStyle

/-- Positional at any size, and integers without a point. -/
def plain : DecimalStyle := ⟨false, fun _ => true⟩

/-- A fraction part is always shown; numbers below `10 ^ -4` and from `10 ^ 16` on are written with
an exponent. -/
def marked : DecimalStyle := ⟨true, fun p => decide (-4 ≤ p ∧ p < 16)⟩

/-- The digits of a decimal in positional form. -/
def positionalText (style : DecimalStyle) (d : Decimal) : List Char :=
  let digits := d.text
  if 0 ≤ d.exponent then
    digits ++ List.replicate d.exponent.toNat '0' ++ if style.keepPoint then ['.', '0'] else []
  else
    let places := (-d.exponent).toNat
    if places < digits.length then
      digits.take (digits.length - places) ++ '.' :: digits.drop (digits.length - places)
    else '0' :: '.' :: List.replicate (places - digits.length) '0' ++ digits

/-- The digits of a decimal with an exponent. -/
def exponentText (d : Decimal) : List Char :=
  match d.text with
  | [] => []
  | [c] => c :: 'e' :: (toString d.leading).toList
  | c :: rest => c :: '.' :: rest ++ 'e' :: (toString d.leading).toList

/-- The text of a decimal. -/
def render (style : DecimalStyle) (d : Decimal) : List Char :=
  if style.positional d.leading then style.positionalText d else exponentText d

end DecimalStyle

namespace Single

/-- The text of a scalar in the given style. -/
def format (style : DecimalStyle) (x : Single) : String :=
  match x.decode with
  | .nan => "NaN"
  | .infinite s => if s then "-inf" else "inf"
  | .finite s m e =>
    let digits :=
      if m = 0 then (if style.keepPoint then ['0', '.', '0'] else ['0'])
      else style.render (RoundingInterval.of m e).shortest
    String.ofList (if s then '-' :: digits else digits)

/-- The text of a scalar in plain style. -/
def text (x : Single) : String := x.format .plain

/-- The text of a scalar in marked style. -/
def markedText (x : Single) : String := x.format .marked

/-- Why a text is no scalar. -/
inductive ParseError where
  | empty
  | invalid
  deriving DecidableEq, Repr

/-- The wording of a parse error. -/
def ParseError.message : ParseError → String
  | .empty => "cannot parse float from empty string"
  | .invalid => "invalid float literal"

/-- The scalar nearest to `digits * 10 ^ exponent`. A number of more than forty digits before the
point is beyond the range, and one below `10 ^ -60` rounds to zero. -/
def ofDecimal (negative : Bool) (digits : Nat) (exponent : Int) : Single :=
  let size := (Nat.toDigits 10 digits).length + exponent
  if digits = 0 then ofParts negative 0
  else if 40 < size then ofParts negative 0x7f800000
  else if size < -60 then ofParts negative 0
  else ofFraction negative (digits * Nat.pow 10 exponent.toNat) (Nat.pow 10 (-exponent).toNat)

/-- The natural number that a list of decimal digits spells. -/
def digitsValue (cs : List Char) : Nat :=
  cs.foldl (fun n c => 10 * n + (c.toNat - '0'.toNat)) 0

/-- Read the exponent part after its letter: an optional sign and at least one digit. -/
def parseExponent (cs : List Char) : Option Int :=
  let (negative, digits) := match cs with
    | '-' :: r => (true, r)
    | '+' :: r => (false, r)
    | r => (false, r)
  if digits.isEmpty || !digits.all Char.isDigit then none
  else some (if negative then -(digitsValue digits : Int) else digitsValue digits)

/-- Read an unsigned decimal: digits with an optional point among them, at least one digit, and an
optional exponent. -/
def parseDecimal (negative : Bool) (cs : List Char) : Option Single :=
  let whole := cs.takeWhile Char.isDigit
  let afterWhole := cs.dropWhile Char.isDigit
  let (places, rest) := match afterWhole with
    | '.' :: r => (r.takeWhile Char.isDigit, r.dropWhile Char.isDigit)
    | r => ([], r)
  if whole.isEmpty && places.isEmpty then none
  else
    let value (exponent : Int) :=
      ofDecimal negative (digitsValue (whole ++ places)) (exponent - places.length)
    match rest with
    | [] => some (value 0)
    | c :: r => if c = 'e' ∨ c = 'E' then (parseExponent r).map value else none

/-- Read a scalar: an optional sign, then a decimal or a name of an infinity or of not-a-number in
any case. -/
def parse (s : String) : Except ParseError Single :=
  match s.toList with
  | [] => .error .empty
  | cs =>
    let (negative, body) := match cs with
      | '-' :: r => (true, r)
      | '+' :: r => (false, r)
      | r => (false, r)
    let name := String.ofList (body.map Char.toLower)
    if name = "inf" ∨ name = "infinity" then .ok (ofParts negative 0x7f800000)
    else if name = "nan" then .ok (ofParts negative 0x7fc00000)
    else match parseDecimal negative body with
      | some x => .ok x
      | none => .error .invalid

end Single

end SortLast
