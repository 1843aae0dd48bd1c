import VisualMemory.Byte

/-!
# Timer control

Both timers have one control byte of the same layout, from bit 7 down: run the high half, run the
low half, chain the halves, external clock, high overflow, high interrupt, low overflow, low
interrupt. A timer only ever sets the overflow bits; programs clear them.
-/

namespace VisualMemory.Timer

/-- The control byte of a timer by meaning. -/
structure Control where
  highRun : Bool
  lowRun : Bool
  /-- The halves form one 16-bit counter. -/
  longMode : Bool
  /-- Kept as written; the clock is always the processor's. -/
  external : Bool
  highOverflow : Bool
  highIrqEnable : Bool
  lowOverflow : Bool
  lowIrqEnable : Bool
  deriving DecidableEq, Repr

namespace Control

/-- The meaning of a control byte. -/
def ofByte (b : UInt8) : Control :=
  { highRun := b.bit 7
    lowRun := b.bit 6
    longMode := b.bit 5
    external := b.bit 4
    highOverflow := b.bit 3
    highIrqEnable := b.bit 2
    lowOverflow := b.bit 1
    lowIrqEnable := b.bit 0 }

def toByte (c : Control) : UInt8 :=
  (UInt8.ofBool c.highRun <<< 7) ||| (UInt8.ofBool c.lowRun <<< 6) |||
  (UInt8.ofBool c.longMode <<< 5) ||| (UInt8.ofBool c.external <<< 4) |||
  (UInt8.ofBool c.highOverflow <<< 3) ||| (UInt8.ofBool c.highIrqEnable <<< 2) |||
  (UInt8.ofBool c.lowOverflow <<< 1) ||| UInt8.ofBool c.lowIrqEnable

/-- Whether the low half makes a tone: it runs, and on its own. -/
def sounds (c : Control) : Bool :=
  c.lowRun && !c.longMode

end Control

end VisualMemory.Timer
