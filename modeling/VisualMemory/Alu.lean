import VisualMemory.Psw

/-!
# Addition and subtraction with flags

* `Alu.add`, `Alu.sub`: the byte that results and the three flags that go with it.
* `Psw.setArithmetic`: a status word that takes the flags of a result.
-/

namespace VisualMemory

/-- The outcome of an 8-bit addition or subtraction. -/
structure Alu.Result where
  value : UInt8
  carry : Bool
  auxiliaryCarry : Bool
  overflow : Bool
  deriving DecidableEq, Repr

namespace Alu

/-- `lhs + rhs + carry`: a carry is a sum that does not fit the byte, an auxiliary carry one that
does not fit the low four bits, an overflow a sum whose sign neither operand has. -/
def add (lhs rhs : UInt8) (carry : Bool) : Result :=
  let c := UInt8.ofBool carry
  let value := lhs + rhs + c
  { value
    carry := lhs.toNat + rhs.toNat + c.toNat > 0xFF
    auxiliaryCarry := (lhs &&& 0x0F) + (rhs &&& 0x0F) + c > 0x0F
    overflow := ((lhs ^^^ value) &&& (rhs ^^^ value)).bit 7 }

/-- `lhs - rhs - borrow`: the carry flags say that something had to be borrowed, an overflow that
the operands' signs differ and the result does not have the sign of the first. -/
def sub (lhs rhs : UInt8) (borrow : Bool) : Result :=
  let b := UInt8.ofBool borrow
  let value := lhs - rhs - b
  { value
    carry := lhs.toNat < rhs.toNat + b.toNat
    auxiliaryCarry := (lhs &&& 0x0F) < (rhs &&& 0x0F) + b
    overflow := ((lhs ^^^ rhs) &&& (lhs ^^^ value)).bit 7 }

end Alu

/-- The status word with carry, auxiliary carry and overflow taken from a result. -/
def Psw.setArithmetic (p : Psw) (r : Alu.Result) : Psw :=
  ((p.setFlag .carry r.carry).setFlag .auxiliaryCarry r.auxiliaryCarry).setFlag .overflow r.overflow

end VisualMemory
