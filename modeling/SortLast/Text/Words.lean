/-!
# Cutting text

Texts as lists of characters are trimmed of white space, split at a separator and searched for a
placeholder.

* `Text.isBlank`: the white space characters.
* `Text.trim`, `Text.splitAll`, `Text.splitFirst`, `Text.splitLast`.
* `Text.substitute`: fill in every placeholder, which is an empty pair of braces.
-/

namespace SortLast.Text

/-- The white space characters outside ASCII and the controls that count as white space. -/
def blankRanges : List (Nat × Nat) :=
  [(0x09, 0x0d), (0x20, 0x20), (0x85, 0x85), (0xa0, 0xa0), (0x1680, 0x1680), (0x2000, 0x200a),
   (0x2028, 0x2029), (0x202f, 0x202f), (0x205f, 0x205f), (0x3000, 0x3000)]

/-- True for white space. -/
def isBlank (c : Char) : Bool := blankRanges.any fun r => decide (r.1 ≤ c.toNat ∧ c.toNat ≤ r.2)

/-- The text without white space at its ends. -/
def trim (cs : List Char) : List Char :=
  ((cs.dropWhile isBlank).reverse.dropWhile isBlank).reverse

/-- The parts between separators; a text without one is a single part. -/
def splitAll (separator : Char) : List Char → List (List Char)
  | [] => [[]]
  | c :: cs =>
    if c = separator then [] :: splitAll separator cs
    else match splitAll separator cs with
      | [] => [[c]]
      | part :: parts => (c :: part) :: parts

/-- The parts before and after the first separator. -/
def splitFirst (separator : Char) : List Char → Option (List Char × List Char)
  | [] => none
  | c :: cs =>
    if c = separator then some ([], cs)
    else (splitFirst separator cs).map fun (before, after) => (c :: before, after)

/-- The parts before and after the last separator. -/
def splitLast (separator : Char) (cs : List Char) : Option (List Char × List Char) :=
  (splitFirst separator cs.reverse).map fun (after, before) => (before.reverse, after.reverse)

/-- The text with every placeholder, taken from left to right, replaced. -/
def substitute (value : List Char) : List Char → List Char
  | [] => []
  | '\x7b' :: '\x7d' :: cs => value ++ substitute value cs
  | c :: cs => c :: substitute value cs

end SortLast.Text
