/-!
# Reading natural numbers

A natural number is an optional plus sign and decimal digits, and has to be below a limit. The digits
are taken from left to right, and the first thing wrong is what is reported.
-/

namespace SortLast.Text

/-- Why a text is no number of its type. -/
inductive IntegerError where
  | empty
  | invalidDigit
  | overflow
  deriving DecidableEq, Repr

/-- The wording of an integer error. -/
def IntegerError.message : IntegerError → String
  | .empty => "cannot parse integer from empty string"
  | .invalidDigit => "invalid digit found in string"
  | .overflow => "number too large to fit in target type"

/-- Read digits after the number `n`, all results staying below `limit`. -/
def digitsFrom (limit n : Nat) : List Char → Except IntegerError Nat
  | [] => .ok n
  | c :: cs =>
    if !c.isDigit then .error .invalidDigit
    else
      let next := 10 * n + (c.toNat - '0'.toNat)
      if limit ≤ next then .error .overflow else digitsFrom limit next cs

/-- Read a natural number below `limit`. -/
def parseNat (limit : Nat) : List Char → Except IntegerError Nat
  | [] => .error .empty
  | ['+'] => .error .invalidDigit
  | '+' :: cs => digitsFrom limit 0 cs
  | cs => digitsFrom limit 0 cs

end SortLast.Text
