/-!
# Why a machine cannot be assembled

Images may be too large for their memory, and a machine needs the image that it starts from. Once a
machine stands, nothing in it can fail.
-/

namespace VisualMemory

/-- A memory that is filled from an image. -/
inductive Region where
  | rom
  | flash
  deriving DecidableEq, Repr

namespace Region

/-- The bytes that the memory holds. -/
def capacity : Region → Nat
  | rom => 0x10000
  | flash => 0x20000

def name : Region → String
  | rom => "ROM"
  | flash => "Flash"

end Region

/-- Why a machine cannot be assembled. -/
inductive BootError where
  | imageTooLarge (region : Region) (size : Nat)
  | missingBios
  | missingFlash
  deriving DecidableEq, Repr

def BootError.message : BootError → String
  | imageTooLarge region size =>
    s!"{region.name} image is {size} bytes, larger than the " ++
      s!"{region.capacity} bytes the region can hold"
  | missingBios => "a BIOS image is required unless the CPU boots through HLE"
  | missingFlash => "HLE boot needs a flash image to start from"

end VisualMemory
