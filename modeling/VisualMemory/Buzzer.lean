/-!
# The buzzer

A piezo buzzer that timer 1 drives. It keeps the last period and whether it sounds; a front end
turns that into a wave.
-/

namespace VisualMemory

/-- The buzzer's last period and whether it sounds. -/
structure Buzzer where
  period : UInt8 := 0
  enabled : Bool := false
  deriving DecidableEq, Repr

namespace Buzzer

/-- Cycles between two overflows of the counter behind the tone. -/
def cycles (b : Buzzer) : Nat :=
  256 - b.period.toNat

/-- The tone in Hz for a processor clock, if the buzzer sounds. -/
def tone (b : Buzzer) (clock : Float) : Option Float :=
  if b.enabled then some (clock / b.cycles.toFloat) else none

end Buzzer

end VisualMemory
