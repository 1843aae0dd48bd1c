/-!
# Interrupt sources

| source | vector | level        |
|--------|--------|--------------|
| Reset  | 0x000  | non-maskable |
| Int0   | 0x003  | high         |
| Int1   | 0x00B  | high         |
| Int2   | 0x013  | low          |
| Int3   | 0x01B  | low          |
| T0Hov  | 0x023  | low          |
| T1Hlov | 0x02B  | low          |
| Sio0   | 0x033  | low          |
| Sio1   | 0x03B  | low          |
| Rfb    | 0x043  | low          |
| P3     | 0x04B  | low          |

The order of the table is the order of priority.
-/

namespace VisualMemory.Interrupt

/-- What can interrupt the processor. -/
inductive Source where
  | reset
  | int0
  | int1
  | int2
  | int3
  | t0hov
  | t1hlov
  | sio0
  | sio1
  | rfb
  | p3
  deriving DecidableEq, Repr

/-- The nesting level of a service routine. -/
inductive Level where
  /-- No routine is running. -/
  | idle
  | low
  | high
  | nonMaskable
  deriving DecidableEq, Repr

namespace Level

def rank : Level → Nat
  | idle => 0
  | low => 1
  | high => 2
  | nonMaskable => 3

instance : LT Level := ⟨fun a b => a.rank < b.rank⟩

instance (a b : Level) : Decidable (a < b) := inferInstanceAs (Decidable (a.rank < b.rank))

def name : Level → String
  | idle => "None"
  | low => "Low"
  | high => "High"
  | nonMaskable => "NonMaskable"

def all : List Level := [idle, low, high, nonMaskable]

end Level

namespace Source

/-- All sources, highest priority first. -/
def all : List Source :=
  [reset, int0, int1, int2, int3, t0hov, t1hlov, sio0, sio1, rfb, p3]

/-- The source's place in the order of priority, which is also its bit in the pending word. -/
def index : Source → UInt16
  | reset => 0
  | int0 => 1
  | int1 => 2
  | int2 => 3
  | int3 => 4
  | t0hov => 5
  | t1hlov => 6
  | sio0 => 7
  | sio1 => 8
  | rfb => 9
  | p3 => 10

/-- Where the source's service routine starts. -/
def vector : Source → UInt16
  | reset => 0x000
  | int0 => 0x003
  | int1 => 0x00B
  | int2 => 0x013
  | int3 => 0x01B
  | t0hov => 0x023
  | t1hlov => 0x02B
  | sio0 => 0x033
  | sio1 => 0x03B
  | rfb => 0x043
  | p3 => 0x04B

def level : Source → Level
  | reset => .nonMaskable
  | int0 | int1 => .high
  | _ => .low

/-- Whether the master enable holds the source back. -/
def isMaskable (s : Source) : Bool :=
  s ≠ reset

def name : Source → String
  | reset => "Reset"
  | int0 => "Int0"
  | int1 => "Int1"
  | int2 => "Int2"
  | int3 => "Int3"
  | t0hov => "T0Hov"
  | t1hlov => "T1Hlov"
  | sio0 => "Sio0"
  | sio1 => "Sio1"
  | rfb => "Rfb"
  | p3 => "P3"

end Source

end VisualMemory.Interrupt
