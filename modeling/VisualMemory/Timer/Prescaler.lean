/-!
# The prescaler

A divider that lets one cycle in `256 - reload` through.
-/

namespace VisualMemory.Timer

/-- The divider's count. -/
structure Prescaler where
  count : UInt16 := 0
  deriving DecidableEq, Repr

/-- The divider one cycle later, and whether it lets that cycle through; it then starts again from
the reload value. -/
def Prescaler.step (p : Prescaler) (reload : UInt8) : Prescaler × Bool :=
  let count := p.count + 1
  if count > 0xFF then (⟨reload.toUInt16⟩, true) else (⟨count⟩, false)

end VisualMemory.Timer
