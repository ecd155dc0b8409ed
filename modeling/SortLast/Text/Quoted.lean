import SortLast.Text.Hidden

/-!
# Quoted text

A text between quotation marks, in which quotation marks, backslashes, the common controls and every
character without a shape of its own are escaped.
-/

namespace SortLast.Text

/-- How a character is written between quotation marks. -/
def escape (c : Char) : List Char :=
  match c with
  | '\x00' => ['\\', '0']
  | '\t' => ['\\', 't']
  | '\n' => ['\\', 'n']
  | '\r' => ['\\', 'r']
  | '\"' => ['\\', '\"']
  | '\\' => ['\\', '\\']
  | c =>
    if isHidden c then ['\\', 'u', '\x7b'] ++ Nat.toDigits 16 c.toNat ++ ['\x7d'] else [c]

/-- The text between quotation marks. -/
def quote (s : String) : String := String.ofList ('\"' :: s.toList.flatMap escape ++ ['\"'])

end SortLast.Text
