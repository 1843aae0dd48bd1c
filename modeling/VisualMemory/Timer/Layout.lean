import VisualMemory.Interrupt.Source
import VisualMemory.Register

/-!
# Timer layouts

Where each timer finds its registers and which interrupts it raises.
-/

namespace VisualMemory.Timer

/-- The registers and interrupts of a timer. -/
structure Layout where
  control : UInt16
  lowCounter : UInt16
  lowReload : UInt16
  highCounter : UInt16
  highReload : UInt16
  /-- What the low half restarts from when it overflows into the high half. -/
  cascadeReload : UInt16
  lowSource : Interrupt.Source
  highSource : Interrupt.Source
  deriving DecidableEq, Repr

def Layout.timer0 : Layout where
  control := Register.t0con
  lowCounter := Register.t0l
  lowReload := Register.t0lr
  highCounter := Register.t0h
  highReload := Register.t0hr
  cascadeReload := Register.t0lr
  lowSource := .int2
  highSource := .t0hov

/-- Timer 1. Its low half restarts from the reload register of timer 0 when the halves are
chained. -/
def Layout.timer1 : Layout where
  control := Register.t1cnt
  lowCounter := Register.t1l
  lowReload := Register.t1l
  highCounter := Register.t1h
  highReload := Register.t1h
  cascadeReload := Register.t0lr
  lowSource := .t1hlov
  highSource := .t1hlov

end VisualMemory.Timer
