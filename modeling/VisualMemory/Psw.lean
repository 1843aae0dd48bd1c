import VisualMemory.Byte

/-!
# The program status word

One byte holds the arithmetic flags and the bank selections:

* bit 7, carry; bit 6, auxiliary carry out of bit 3; bit 2, signed overflow; bit 0, parity, which
  programs use as they like;
* bits 4 and 3, the group of indirect registers in use; bit 1, the main RAM bank.

`Psw` is the view of that byte by meaning.
-/

namespace VisualMemory

/-- A flag of the status word that can be read and written by itself. -/
inductive Flag where
  | carry
  | auxiliaryCarry
  | overflow
  | parity
  deriving DecidableEq, Repr

/-- Where a flag lies in the status word. -/
def Flag.index : Flag → UInt8
  | .carry => 7
  | .auxiliaryCarry => 6
  | .overflow => 2
  | .parity => 0

/-- The program status word. -/
structure Psw where
  byte : UInt8 := 0
  deriving DecidableEq, Repr

namespace Psw

def flag (p : Psw) (f : Flag) : Bool :=
  p.byte.bit f.index

def setFlag (p : Psw) (f : Flag) (on : Bool) : Psw :=
  ⟨p.byte.setBit f.index on⟩

/-- The group of four indirect registers in use, 0 to 3. -/
def indirectBank (p : Psw) : UInt8 :=
  (p.byte >>> 3) &&& 3

def ramBank (p : Psw) : Fin 2 :=
  if p.byte.bit 1 then 1 else 0

end Psw

end VisualMemory
