/-!
# Internet addresses

Addresses of both families and their texts. An address of four bytes is written with points; one of
eight groups in hexadecimal, with colons, and its longest run of zero groups is left out.

* `IpAddress.parse`, `IpAddress.text`, `IpAddress.kind`.
* `SocketAddress.parse`, `SocketAddress.text`: an address with a port.
-/

namespace SortLast

/-- An internet address. -/
inductive IpAddress where
  | v4 (a b c d : UInt8)
  | v6 (groups : Vector UInt16 8)
  deriving DecidableEq, Repr

/-- An internet address with a port. -/
structure SocketAddress where
  ip : IpAddress
  port : UInt16
  /-- The network interface that an address of eight groups belongs to. -/
  scope : UInt32 := 0
  deriving DecidableEq, Repr

namespace IpAddress

/-- What an address stands for. -/
inductive Kind where
  /-- An address of four bytes, in either form. -/
  | short
  | wildcard
  | multicast
  | linkLocal
  | global
  deriving DecidableEq, Repr

/-- What an address stands for. An address of four bytes may be written as one of eight groups. -/
def kind : IpAddress → Kind
  | v4 .. => .short
  | v6 groups =>
    let first := groups[0].toNat
    if groups.toList.take 6 = [0, 0, 0, 0, 0, 0xffff] then .short
    else if groups.toList.all (· == 0) then .wildcard
    else if 0xff00 ≤ first then .multicast
    else if 0xfe80 ≤ first ∧ first < 0xfec0 then .linkLocal
    else .global

/-! ### Reading -/

/-- What a reader of a text gives: a value and the rest of the text. -/
abbrev Reader (α : Type) := List Char → Option (α × List Char)

/-- The value of a digit. -/
def digitValue (c : Char) : Nat :=
  if c.isDigit then c.toNat - '0'.toNat
  else if 'a' ≤ c ∧ c ≤ 'f' then c.toNat - 'a'.toNat + 10
  else if 'A' ≤ c ∧ c ≤ 'F' then c.toNat - 'A'.toNat + 10
  else 36

/-- The value of a row of digits. -/
def digitsValue (base : Nat) (digits : List Char) : Nat :=
  digits.foldl (fun n c => n * base + digitValue c) 0

/-- Read all digits at the front of a text, at least one and at most `most`, as a number below
`limit`. -/
def readNumber (base most limit : Nat) : Reader Nat := fun cs =>
  let digits := cs.takeWhile fun c => decide (digitValue c < base)
  let n := digitsValue base digits
  if digits.isEmpty || decide (most < digits.length) || decide (limit ≤ n) then none
  else some (n, cs.drop digits.length)

/-- Read a byte in decimal; only zero itself starts with a zero. -/
def readByte : Reader UInt8 := fun cs =>
  match readNumber 10 3 UInt8.size cs with
  | some (n, rest) =>
    if cs.head? = some '0' ∧ rest.length + 1 < cs.length then none else some (UInt8.ofNat n, rest)
  | none => none

/-- Read one given character. -/
def readChar (expected : Char) : Reader Unit
  | [] => none
  | c :: cs => if c = expected then some ((), cs) else none

/-- Read a point and a byte. -/
def readPointByte : Reader UInt8 := fun cs => do
  let (_, cs) ← readChar '.' cs
  readByte cs

/-- Read an address of four bytes. -/
def readBytes : Reader (UInt8 × UInt8 × UInt8 × UInt8) := fun cs => do
  let (a, cs) ← readByte cs
  let (b, cs) ← readPointByte cs
  let (c, cs) ← readPointByte cs
  let (d, cs) ← readPointByte cs
  return ((a, b, c, d), cs)

/-- A row of groups. -/
structure Groups where
  groups : List UInt16
  /-- True if the last two were written as four bytes. -/
  endsInBytes : Bool
  rest : List Char

/-- Two bytes as a group. -/
def pair (a b : UInt8) : UInt16 := a.toUInt16 * 256 + b.toUInt16

/-- Read at most `most` groups with colons between them; the last two may be written as four
bytes. -/
def readGroups : (most : Nat) → (first : Bool) → List Char → Groups
  | 0, _, cs => ⟨[], false, cs⟩
  | n + 1, first, cs =>
    match if first then some ((), cs) else readChar ':' cs with
    | none => ⟨[], false, cs⟩
    | some (_, body) =>
      match if n = 0 then none else readBytes body with
      | some ((a, b, c, d), rest) => ⟨[pair a b, pair c d], true, rest⟩
      | none =>
        match readNumber 16 4 UInt16.size body with
        | some (g, rest) =>
          let more := readGroups n false rest
          { more with groups := UInt16.ofNat g :: more.groups }
        | none => ⟨[], false, cs⟩

/-- Fill the gap between the groups before and after a double colon with zeros. -/
def fill (front back : List UInt16) : Option (Vector UInt16 8) :=
  let all := front ++ List.replicate (8 - front.length - back.length) 0 ++ back
  if h : all.toArray.size = 8 then some ⟨all.toArray, h⟩ else none

/-- Read an address of eight groups. A double colon stands for one zero group or more. -/
def readEight : Reader (Vector UInt16 8) := fun cs =>
  let front := readGroups 8 true cs
  if front.groups.length = 8 then (fill front.groups []).map fun v => (v, front.rest)
  else if front.endsInBytes then none
  else do
    let (_, cs) ← readChar ':' front.rest
    let (_, cs) ← readChar ':' cs
    let back := readGroups (7 - front.groups.length) true cs
    (fill front.groups back.groups).map fun v => (v, back.rest)

/-- The value of a reader that uses up the text. -/
def complete {α : Type} (r : Reader α) (cs : List Char) : Option α :=
  match r cs with
  | some (a, []) => some a
  | _ => none

/-- Read the text of an address. -/
def parse (s : String) : Option IpAddress :=
  match complete readBytes s.toList with
  | some (a, b, c, d) => some (v4 a b c d)
  | none => (complete readEight s.toList).map v6

/-! ### Writing -/

/-- The text of four bytes. -/
def bytesText (a b c d : UInt8) : String :=
  ".".intercalate ([a, b, c, d].map fun x => toString x.toNat)

/-- The text of a row of groups. -/
def groupsText (groups : List UInt16) : String :=
  ":".intercalate (groups.map fun g => String.ofList (Nat.toDigits 16 g.toNat))

/-- The place and the length of the longest run of zeros, the first one of several; `place` is the
place of the first group. -/
def longestZeros (place : Nat) : List UInt16 → Nat × Nat
  | [] => (place, 0)
  | g :: gs =>
    let run := ((g :: gs).takeWhile (· == 0)).length
    let later := longestZeros (place + 1) gs
    if later.2 ≤ run then (place, run) else later

/-- The text of eight groups. An address that stands for one of four bytes shows them. -/
def eightText (groups : List UInt16) : String :=
  match groups with
  | [0, 0, 0, 0, 0, 0xffff, x, y] =>
    "::ffff:" ++ bytesText (x / 256).toUInt8 x.toUInt8 (y / 256).toUInt8 y.toUInt8
  | _ =>
    let (start, length) := longestZeros 0 groups
    if length ≤ 1 then groupsText groups
    else groupsText (groups.take start) ++ "::" ++ groupsText (groups.drop (start + length))

/-- The text of an address. -/
def text : IpAddress → String
  | v4 a b c d => bytesText a b c d
  | v6 groups => eightText groups.toList

end IpAddress

namespace SocketAddress

/-- Read a port. -/
def readPort : IpAddress.Reader UInt16 := fun cs => do
  let (_, cs) ← IpAddress.readChar ':' cs
  let (n, cs) ← IpAddress.readNumber 10 cs.length UInt16.size cs
  return (UInt16.ofNat n, cs)

/-- Read the interface of an address; without one it is zero. -/
def readScope : IpAddress.Reader UInt32 := fun cs =>
  match IpAddress.readChar '%' cs with
  | none => some (0, cs)
  | some (_, cs) => (IpAddress.readNumber 10 cs.length UInt32.size cs).map fun (n, cs) =>
      (UInt32.ofNat n, cs)

/-- Read an address of four bytes with a port. -/
def readShort : IpAddress.Reader SocketAddress := fun cs => do
  let ((a, b, c, d), cs) ← IpAddress.readBytes cs
  let (port, cs) ← readPort cs
  return (⟨.v4 a b c d, port, 0⟩, cs)

/-- Read an address of eight groups in brackets with a port. -/
def readLong : IpAddress.Reader SocketAddress := fun cs => do
  let (_, cs) ← IpAddress.readChar '[' cs
  let (groups, cs) ← IpAddress.readEight cs
  let (scope, cs) ← readScope cs
  let (_, cs) ← IpAddress.readChar ']' cs
  let (port, cs) ← readPort cs
  return (⟨.v6 groups, port, scope⟩, cs)

/-- Read the text of an address with a port. -/
def parse (s : String) : Option SocketAddress :=
  (IpAddress.complete readShort s.toList).or (IpAddress.complete readLong s.toList)

/-- The text of an address with a port. -/
def text (a : SocketAddress) : String :=
  match a.ip with
  | .v4 .. => a.ip.text ++ ":" ++ toString a.port.toNat
  | .v6 _ =>
    let scope := if a.scope = 0 then "" else "%" ++ toString a.scope.toNat
    "[" ++ a.ip.text ++ scope ++ "]:" ++ toString a.port.toNat

end SocketAddress

end SortLast
