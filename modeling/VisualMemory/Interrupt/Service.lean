import VisualMemory.Byte
import VisualMemory.Interrupt.Source
import VisualMemory.Psw

/-!
# Interrupt service

* `Enable`: the enable register, which holds every maskable source back while its bit 7 is clear.
* `Service`: what the processor notes when it enters a service routine.
-/

namespace VisualMemory.Interrupt

/-- The interrupt enable register. -/
structure Enable where
  byte : UInt8
  deriving DecidableEq, Repr

namespace Enable

/-- Whether maskable sources are let in. -/
def master (e : Enable) : Bool :=
  e.byte.bit 7

/-- Whether the source is let in. -/
def allows (e : Enable) (s : Source) : Bool :=
  !s.isMaskable || e.master

end Enable

/-- A service routine in progress. -/
structure Service where
  source : Source
  /-- Where the interrupted program goes on. -/
  returnPc : UInt16
  /-- The status word at entry. -/
  psw : Psw
  /-- The level that was interrupted. -/
  previousLevel : Level
  deriving DecidableEq, Repr

end VisualMemory.Interrupt
