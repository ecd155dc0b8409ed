import SortLast.Error

/-!
# Machine words

Sizes are computed in words of 64 bits. Whether a product that does not fit is noticed depends on how
the program was built.

* `Build.times`: the product of two words.
-/

namespace SortLast

/-- A machine word holds the integers modulo this number. -/
def wordModulus : Nat := UInt64.size

/-- How a program was built: a product that exceeds a machine word wraps around, or ends the
computation. -/
inductive Build where
  | wrapping
  | checked
  deriving DecidableEq, Repr

/-- The product of two machine words. -/
def Build.times (b : Build) (m n : Nat) : Except Fault Nat :=
  match b with
  | .wrapping => .ok (m * n % wordModulus)
  | .checked => if wordModulus ≤ m * n then .error .overflow else .ok (m * n)

end SortLast
