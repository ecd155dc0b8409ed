import SortLast.Volume

/-!
# Preview renderers

The coordinator's own renderer, of which only the volume and some abilities matter here.
-/

namespace SortLast

/-- An ability of a preview renderer. -/
inductive Capability where
  | distributed
  | depthImages
  deriving DecidableEq, Repr

/-- The bit that stands for an ability. -/
def Capability.bit : Capability → Nat
  | distributed => 1
  | depthImages => 2

/-- A preview renderer. -/
structure Preview where
  volume : Volume
  capabilities : List Capability := []
  deriving DecidableEq, Repr

namespace Preview

/-- True if the renderer has an ability. -/
def has (p : Preview) (c : Capability) : Bool := p.capabilities.contains c

/-- The abilities as a sum of bits. -/
def bits (p : Preview) : Nat :=
  (([.distributed, .depthImages] : List Capability).filter p.has).foldl (fun n c => n + c.bit) 0

end Preview

end SortLast
