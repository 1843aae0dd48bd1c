import VisualMemory.Instruction.Basic
import VisualMemory.Machine.Service

/-!
# Operands of instructions

Operand bytes follow the opcode in program memory and are fetched one after the other, so the
program counter moves past each as it is read. Some operand bits share the opcode byte.

* `Machine.fetchDirect`, `Machine.fetchBitDirect`, `bitIndex`: RAM addresses, and a bit beside one.
* `Machine.fetchNear`, `Machine.fetchFar`, `Machine.fetchPaged`, `Machine.fetchAbsolute`: branch
  displacements and targets.
* `Machine.indirectAddress`: the address in an indirect register.
* `Machine.operandAddress`, `Machine.operandValue`, `Machine.fetchCompared`: the operand of an
  instruction with several forms.
-/

namespace VisualMemory

/-- The bit index in an opcode byte. -/
def bitIndex (raw : UInt8) : UInt8 :=
  raw &&& 0x07

namespace Machine

/-! ## Addresses in RAM -/

/-- A nine-bit address: opcode bit 0 on top of the byte that is fetched. -/
def fetchDirect (m : Machine) (raw : UInt8) : Machine × UInt16 :=
  let (m, low) := m.fetch
  (m, ((raw &&& 0x01).toUInt16 <<< 8) ||| low.toUInt16)

/-- A nine-bit address beside a bit index: opcode bit 4 on top of the byte that is fetched. -/
def fetchBitDirect (m : Machine) (raw : UInt8) : Machine × UInt16 :=
  let (m, low) := m.fetch
  (m, ((raw &&& 0x10).toUInt16 <<< 4) ||| low.toUInt16)

/-- The address in the indirect register that an opcode names. The registers are the first sixteen
bytes of main RAM in four groups; the upper two of a group point into the register half. -/
def indirectAddress (m : Machine) (raw : UInt8) : UInt16 :=
  let j := raw &&& 0x03
  let pointer := m.register (m.psw.indirectBank * 4 + j).toUInt16
  pointer.toUInt16 ||| ((j &&& 0x02).toUInt16 <<< 7)

def operandAddress (m : Machine) (raw : UInt8) : Operand → Machine × UInt16
  | .indirect => (m, m.indirectAddress raw)
  | .direct | .immediate => m.fetchDirect raw

def operandValue (m : Machine) (raw : UInt8) : Operand → Machine × UInt8
  | .immediate => m.fetch
  | source =>
    let (m, address) := m.operandAddress raw source
    (m, m.register address)

/-- The two bytes that a comparison looks at: accumulator and operand, or an indirect cell and the
byte behind the opcode. -/
def fetchCompared (m : Machine) (raw : UInt8) : Operand → Machine × UInt8 × UInt8
  | .immediate =>
    let (m, byte) := m.fetch
    (m, m.acc, byte)
  | .direct =>
    let (m, address) := m.fetchDirect raw
    (m, m.acc, m.register address)
  | .indirect =>
    let (m, byte) := m.fetch
    (m, m.register (m.indirectAddress raw), byte)

/-! ## Targets in program memory -/

/-- The target of a short branch: a signed byte from the next instruction on. -/
def fetchNear (m : Machine) : Machine × UInt16 :=
  let (m, displacement) := m.fetch
  (m, m.cpu.pc.offset displacement)

/-- The target of a long branch: a word, low byte first, from the instruction's last byte on. -/
def fetchFar (m : Machine) : Machine × UInt16 :=
  let (m, low) := m.fetch
  let (m, high) := m.fetch
  (m, m.cpu.pc - 1 + .ofBytes high low)

/-- A target in the 4 KiB page of the next instruction: opcode bits 4 and 0 to 2 on top of the byte
that is fetched. -/
def fetchPaged (m : Machine) (raw : UInt8) : Machine × UInt16 :=
  let upper : UInt16 := ((raw &&& 0x10).toUInt16 <<< 7) ||| ((raw &&& 0x07).toUInt16 <<< 8)
  let (m, low) := m.fetch
  (m, (m.cpu.pc &&& 0xF000) ||| upper ||| low.toUInt16)

/-- A target anywhere: a word, high byte first. -/
def fetchAbsolute (m : Machine) : Machine × UInt16 :=
  let (m, high) := m.fetch
  let (m, low) := m.fetch
  (m, .ofBytes high low)

end Machine

end VisualMemory
