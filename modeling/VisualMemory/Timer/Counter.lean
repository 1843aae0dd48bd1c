import VisualMemory.Timer.Control

/-!
# The counters of a timer

A timer has a low and a high half, each an 8-bit counter with its own reload value. Chained, the
high half advances when the low half overflows.

* `Half`: one counter.
* `Tick.of`: one clock of both halves under a control byte, and what came of it.
-/

namespace VisualMemory.Timer

/-- One half of a timer. -/
structure Half where
  /-- The counter; above 255 it has overflowed. -/
  count : UInt16 := 0
  /-- The clocks since the half was started, as many as can be counted; 0 while it stands still. -/
  clocks : UInt32 := 0
  deriving DecidableEq, Repr

/-- Whether the counter has overflowed. -/
def Half.isOver (h : Half) : Bool :=
  h.count > 0xFF

/-- The half standing still at a reload value. -/
def Half.stopped (reload : UInt8) : Half :=
  { count := reload.toUInt16 }

/-- The half with another count. -/
def Half.restart (h : Half) (reload : UInt8) : Half :=
  { h with count := reload.toUInt16 }

/-- One more clock, up to the last that can be counted. -/
def Half.nextClock (h : Half) : UInt32 :=
  if h.clocks = 0xFFFFFFFF then h.clocks else h.clocks + 1

/-- The values that the halves restart from. -/
structure Reloads where
  low : UInt8
  high : UInt8
  /-- For the low half when it overflows into the high half. -/
  cascade : UInt8
  deriving DecidableEq, Repr

/-- What one clock does to the halves. -/
structure Tick where
  low : Half
  high : Half
  /-- The value from which the low half was started by this clock. -/
  started : Option UInt8
  /-- The low half overflowed on its own. -/
  lowOverflow : Bool
  /-- The high half overflowed. -/
  highOverflow : Bool
  deriving DecidableEq, Repr

namespace Tick

/-- The low half before overflows are looked at. A start takes the reload value; chained without a
running high half it counts by two. -/
def advanceLow (c : Control) (r : Reloads) (low : Half) : Half :=
  if c.lowRun then
    let start := if low.clocks = 0 then r.low.toUInt16 else low.count
    { count := start + (if c.longMode && !c.highRun then 2 else 1), clocks := low.nextClock }
  else .stopped r.low

/-- The high half before overflows are looked at; chained it waits for the low half. -/
def advanceHigh (c : Control) (r : Reloads) (high : Half) : Half :=
  if c.highRun then
    { count := if c.longMode then high.count else high.count + 1, clocks := high.nextClock }
  else .stopped r.high

/-- A half with a carry from below counted. -/
def carryInto (carry : Bool) (h : Half) : Half :=
  if carry then { h with count := h.count + 1 } else h

/-- One clock of both halves. -/
def of (c : Control) (r : Reloads) (low high : Half) : Tick :=
  let ahead := advanceLow c r low
  let lowOver := ahead.isOver
  let highAhead := carryInto (lowOver && c.longMode) (advanceHigh c r high)
  let highOver := highAhead.isOver
  { low :=
      if highOver && c.longMode then ahead.restart r.low
      else if lowOver then ahead.restart (if c.longMode then r.cascade else r.low)
      else ahead
    high := if highOver then highAhead.restart r.high else highAhead
    started := if c.lowRun && low.clocks == 0 then some r.low else none
    lowOverflow := lowOver && !c.longMode
    highOverflow := highOver }

/-- The control byte after the clock: overflows are recorded in it, and the high one stands for both
when the halves are chained. -/
def control (t : Tick) (c : Control) : Control :=
  { c with
    lowOverflow := c.lowOverflow || t.lowOverflow || (t.highOverflow && c.longMode)
    highOverflow := c.highOverflow || t.highOverflow }

end Tick

end VisualMemory.Timer
