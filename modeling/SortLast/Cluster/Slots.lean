import SortLast.Image

/-!
# Image slots

The latest image of every participant, with the number of the frame it was delivered for.

* `Slots.allocate`: slots for any number of participants, if memory can hold them.
* `Slots.store`, `Slots.get`, `Slots.fresh`.
-/

namespace SortLast

/-- The latest image of one participant. -/
structure SlotEntry where
  frame : Nat
  image : Image
  deriving DecidableEq, Repr

/-- One slot per participant. -/
structure Slots where
  entries : List (Option SlotEntry)
  deriving DecidableEq, Repr

namespace Slots

/-- Empty slots. -/
def ofCount (participants : Nat) : Slots := ⟨List.replicate participants none⟩

/-- Empty slots, of 24 bytes each. -/
def allocate (participants : Nat) : Except Fault Slots := do
  checkCapacity participants 24
  return ofCount participants

/-- The number of slots. -/
def size (s : Slots) : Nat := s.entries.length

/-- The content of a slot. -/
def get (s : Slots) (participant : Nat) : Option SlotEntry := s.entries[participant]?.join

/-- Replace the content of a slot; there is nothing to replace beyond the last slot. -/
def store (s : Slots) (participant frame : Nat) (image : Image) : Slots :=
  ⟨s.entries.set participant (some ⟨frame, image⟩)⟩

/-- The image in a slot if it belongs to the given frame. -/
def fresh (s : Slots) (participant frame : Nat) : Option Image :=
  match s.get participant with
  | some e => if e.frame = frame then some e.image else none
  | none => none

/-- True if the image in a slot belongs to the given frame. -/
def isFresh (s : Slots) (participant frame : Nat) : Bool := (s.fresh participant frame).isSome

/-- Empty all slots. -/
def clear (s : Slots) : Slots := ⟨s.entries.map fun _ => none⟩

end Slots

end SortLast
