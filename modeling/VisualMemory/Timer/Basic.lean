import VisualMemory.Event
import VisualMemory.Interrupt.Controller
import VisualMemory.Ram.Basic
import VisualMemory.Timer.Counter
import VisualMemory.Timer.Layout
import VisualMemory.Timer.Prescaler

/-!
# Timers

A timer reads its control and reload registers anew at every clock, so a change of mode applies to
the very next one, and writes back the overflow flags and the live counters.

* `Timer`: layout, divider and counters. `Timer.zero`, `Timer.one`: the two of the machine.
* `Timer.tick`: one clock of the timer. `Timer.step`: one cycle of the processor.
* `Signal`: what a clock tells the rest of the machine besides interrupts.
-/

namespace VisualMemory

/-- A timer. -/
structure Timer where
  layout : Timer.Layout
  /-- The divider between the processor's clock and the timer's. -/
  prescaler : Option Timer.Prescaler := none
  /-- The low half drives the buzzer. -/
  drivesBuzzer : Bool := false
  low : Timer.Half := {}
  high : Timer.Half := {}
  deriving DecidableEq, Repr

namespace Timer

/-- Timer 0, behind its divider. -/
def zero : Timer :=
  { layout := .timer0, prescaler := some {} }

/-- Timer 1, clocked every cycle and wired to the buzzer. -/
def one : Timer :=
  { layout := .timer1, drivesBuzzer := true }

/-! ## Signals -/

/-- What a clock tells the rest of the machine. -/
inductive Signal where
  /-- The tone's period, given when the low half starts. -/
  | period (value : UInt8)
  /-- Whether the tone sounds. -/
  | sound (on : Bool)
  /-- The low half overflowed on its own. -/
  | lowOverflow
  /-- The high half overflowed. -/
  | highOverflow
  deriving DecidableEq, Repr

/-- The journal's event for a signal of a timer, for the signals that are events by themselves. -/
def Signal.event? (layout : Layout) : Signal → Option Event
  | .lowOverflow => some (.lowOverflow layout.control)
  | .highOverflow => some (.highOverflow layout.control)
  | .period _ | .sound _ => none

/-- The signals of a clock, in order. -/
def signals (t : Timer) (c : Control) (k : Tick) : List Signal :=
  let overflows :=
    (if k.lowOverflow then [.lowOverflow] else []) ++
    (if k.highOverflow then [.highOverflow] else [])
  if t.drivesBuzzer then
    match k.started with
    | some reload => .period reload :: .sound c.sounds :: overflows
    | none => .sound c.sounds :: overflows
  else overflows

/-! ## Clocks -/

/-- A timer and what it shares with the machine, after a clock. -/
structure Outcome where
  timer : Timer
  ram : Ram
  interrupts : Interrupt.Controller
  signals : List Signal

def control (t : Timer) (ram : Ram) : Control :=
  .ofByte (ram.readRaw t.layout.control.toNat)

def reloads (t : Timer) (ram : Ram) : Reloads :=
  { low := ram.readRaw t.layout.lowReload.toNat
    high := ram.readRaw t.layout.highReload.toNat
    cascade := ram.readRaw t.layout.cascadeReload.toNat }

/-- The sources that a clock asks service for: that of each overflow whose interrupt is enabled. -/
def requests (t : Timer) (c : Control) (k : Tick) : List Interrupt.Source :=
  (if k.lowOverflow && c.lowIrqEnable then [t.layout.lowSource] else []) ++
  (if k.highOverflow && c.highIrqEnable then [t.layout.highSource] else [])

/-- The RAM after a clock: the control register records overflows, and the counters are latched. -/
def report (t : Timer) (c : Control) (k : Tick) (ram : Ram) : Ram :=
  ((ram.write t.layout.control.toNat (k.control c).toByte).latchCounter
    t.layout.lowCounter k.low.count.toUInt8).latchCounter t.layout.highCounter k.high.count.toUInt8

/-- One clock of the timer. -/
def tick (t : Timer) (ram : Ram) (interrupts : Interrupt.Controller) : Outcome :=
  let c := t.control ram
  let k := Tick.of c (t.reloads ram) t.low t.high
  { timer := { t with low := k.low, high := k.high }
    ram := t.report c k ram
    interrupts := (t.requests c k).foldl (·.raise ·) interrupts
    signals := t.signals c k }

/-- One cycle of the processor: a clock of the timer, if its divider lets the cycle through. -/
def step (t : Timer) (ram : Ram) (interrupts : Interrupt.Controller) : Outcome :=
  match t.prescaler with
  | none => t.tick ram interrupts
  | some p =>
    let (p, fires) := p.step (ram.readRaw Register.t0prr.toNat)
    let t := { t with prescaler := some p }
    if fires then t.tick ram interrupts else { timer := t, ram, interrupts, signals := [] }

end Timer

end VisualMemory
