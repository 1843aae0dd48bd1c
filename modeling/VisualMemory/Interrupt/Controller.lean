import VisualMemory.Interrupt.Source

/-!
# The interrupt controller

One sticky bit per source says that the source asks for service. A request stays until the
processor accepts it or somebody takes it back. Bits that belong to no source are kept as they are.
-/

namespace VisualMemory.Interrupt

/-- The pending word: bit `i` belongs to the source with index `i`. -/
structure Controller where
  word : UInt16 := 0
  deriving DecidableEq, Repr

namespace Controller

/-- The pending word with only the source's bit set. -/
def mask (s : Source) : UInt16 :=
  1 <<< s.index

def isPending (c : Controller) (s : Source) : Bool :=
  c.word &&& mask s != 0

def raise (c : Controller) (s : Source) : Controller :=
  ⟨c.word ||| mask s⟩

def lower (c : Controller) (s : Source) : Controller :=
  ⟨c.word &&& ~~~mask s⟩

/-- The sources that ask for service, highest priority first. -/
def pending (c : Controller) : List Source :=
  Source.all.filter c.isPending

end Controller

end VisualMemory.Interrupt
