import VisualMemory.Alu
import VisualMemory.Machine.Operand

/-!
# Executing instructions

* `Machine.storeResult`, `Machine.modify` and their kin: what families of instructions share.
* `Machine.perform`: what each instruction does, its operands included.
* `Machine.execute`: the instruction of an opcode byte.
-/

namespace VisualMemory.Machine

/-! ## Families of instructions -/

/-- The machine with the outcome of an addition or subtraction in accumulator and flags. -/
def storeResult (m : Machine) (r : Alu.Result) : Machine :=
  let m := m.setAcc r.value
  m.setPsw (m.psw.setArithmetic r)

def modify (m : Machine) (address : UInt16) (f : UInt8 → UInt8) : Machine :=
  m.setRegister address (f (m.register address))

def modifyOperand (m : Machine) (raw : UInt8) (cell : Operand) (f : UInt8 → UInt8) : Machine :=
  let (m, address) := m.operandAddress raw cell
  m.modify address f

/-- The machine with the bit that an opcode names changed by a function of byte and index. -/
def modifyBit (m : Machine) (raw : UInt8) (f : UInt8 → UInt8 → UInt8) : Machine :=
  let (m, address) := m.fetchBitDirect raw
  m.modify address (f · (bitIndex raw))

def combine (m : Machine) (raw : UInt8) (source : Operand) (f : UInt8 → UInt8 → UInt8) : Machine :=
  let (m, value) := m.operandValue raw source
  m.setAcc (f m.acc value)

def calculate (m : Machine) (raw : UInt8) (source : Operand)
    (f : UInt8 → UInt8 → Bool → Alu.Result) (carry : Bool) : Machine :=
  let (m, value) := m.operandValue raw source
  m.storeResult (f m.acc value carry)

/-- The machine at a target, if the branch is taken. -/
def branchIf (m : Machine) (taken : Bool) (target : UInt16) : Machine :=
  if taken then m.jump target else m

/-- The machine after a short branch that is taken if `test` holds. -/
def branchWhen (m : Machine) (test : Bool) : Machine :=
  let (m, target) := m.fetchNear
  m.branchIf test target

/-- The machine after a comparison that branches if the outcome of `==` is `onEqual`. Carry says
that the left byte is the smaller one. -/
def compareBranch (m : Machine) (raw : UInt8) (source : Operand) (onEqual : Bool) : Machine :=
  let (m, lhs, rhs) := m.fetchCompared raw source
  let (m, target) := m.fetchNear
  (m.setFlag .carry (lhs < rhs)).branchIf ((lhs == rhs) == onEqual) target

/-- The machine after a test of a bit that branches if the bit is `onSet`. -/
def bitBranch (m : Machine) (raw : UInt8) (onSet : Bool) : Machine :=
  let (m, address) := m.fetchBitDirect raw
  let (m, target) := m.fetchNear
  m.branchIf ((m.register address).bit (bitIndex raw) == onSet) target

/-- The machine after a test of a bit that clears a set bit and branches. -/
def bitBranchClear (m : Machine) (raw : UInt8) : Machine :=
  let (m, address) := m.fetchBitDirect raw
  let (m, target) := m.fetchNear
  let value := m.register address
  if value.bit (bitIndex raw) then
    (m.setRegister address (value.setBit (bitIndex raw) false)).jump target
  else m

/-- The machine after a countdown that branches until it reaches zero. -/
def countdown (m : Machine) (raw : UInt8) (cell : Operand) : Machine :=
  let (m, address) := m.operandAddress raw cell
  let (m, target) := m.fetchNear
  let value := m.register address - 1
  (m.setRegister address value).branchIf (value != 0) target

/-- The machine in a subroutine, with the address of the next instruction on its stack. -/
def callTo (m : Machine) (target : UInt16) : Machine :=
  (m.pushAddress m.cpu.pc).jump target

/-- The machine with accumulator and carry rolled left as nine bits. -/
def rollLeftCarry (m : Machine) : Machine :=
  let value := m.acc
  let carry := m.flag .carry
  (m.setAcc ((value <<< 1) ||| UInt8.ofBool carry)).setFlag .carry (value.bit 7)

/-- The machine with accumulator and carry rolled right as nine bits. -/
def rollRightCarry (m : Machine) : Machine :=
  let value := m.acc
  let carry := m.flag .carry
  (m.setAcc ((value >>> 1) ||| (UInt8.ofBool carry <<< 7))).setFlag .carry (value.bit 0)

def exchange (m : Machine) (address : UInt16) : Machine :=
  let value := m.register address
  (m.setRegister address m.acc).setAcc value

/-- The word in accumulator and C register. -/
def accC (m : Machine) : UInt16 :=
  .ofBytes m.acc (m.register Register.c)

/-- The machine after accumulator and C times B: a 24-bit product in B, accumulator and C. -/
def multiply (m : Machine) : Machine :=
  let product := m.accC.toUInt32 * (m.register Register.b).toUInt32
  let m := m.setRegister Register.b (product >>> 16).toUInt8
  let m := m.setAcc (product >>> 8).toUInt8
  let m := m.setRegister Register.c product.toUInt8
  (m.setFlag .carry false).setFlag .overflow (product > 0xFFFF)

/-- The machine after accumulator and C by B: the quotient in accumulator and C, the remainder in
B. A division by zero overflows. -/
def divide (m : Machine) : Machine :=
  let dividend := m.accC
  let divisor := (m.register Register.b).toUInt16
  let m :=
    if divisor == 0 then
      ((m.setAcc 0xFF).setRegister Register.b 0).setFlag .overflow true
    else
      let quotient := dividend / divisor
      let m := (m.setAcc quotient.highByte).setRegister Register.c quotient.lowByte
      (m.setRegister Register.b (dividend % divisor).toUInt8).setFlag .overflow false
  m.setFlag .carry false

/-! ## Tables in program memory and flash -/

/-- The table pointer. -/
def tableAddress (m : Machine) : UInt16 :=
  .ofBytes (m.register Register.trh) (m.register Register.trl)

/-- The machine with a table byte of the program memory in use in the accumulator. -/
def loadProgramByte (m : Machine) : Machine :=
  m.setAcc (m.readProgram (m.tableAddress + m.acc.toUInt16))

/-- The machine with a table byte of flash in the accumulator. -/
def loadFlashByte (m : Machine) : Machine :=
  m.setAcc (m.flash.readBanked (m.register Register.fpr) m.tableAddress)

def storeFlashByte (m : Machine) : Machine :=
  let bank := m.register Register.fpr
  let address := m.tableAddress
  let value := m.acc
  { m with flash := m.flash.writeBanked bank address value }

/-! ## Execution -/

/-- The machine after an instruction whose opcode byte has just been fetched. -/
def perform (m : Machine) (raw : UInt8) : Instruction → Machine
  | .nop => m
  | .ld source =>
    let (m, value) := m.operandValue raw source
    m.setAcc value
  | .st target =>
    let (m, address) := m.operandAddress raw target
    m.setRegister address m.acc
  | .mov target =>
    let (m, address) := m.operandAddress raw target
    let (m, value) := m.fetch
    m.setRegister address value
  | .push =>
    let (m, address) := m.fetchDirect raw
    m.push (m.register address)
  | .pop =>
    let (m, address) := m.fetchDirect raw
    let (m, value) := m.pop
    m.setRegister address value
  | .xch cell =>
    let (m, address) := m.operandAddress raw cell
    m.exchange address
  | .ldc => m.loadProgramByte
  | .ldf => m.loadFlashByte
  | .stf => m.storeFlashByte
  | .add source => m.calculate raw source Alu.add false
  | .addc source => m.calculate raw source Alu.add (m.flag .carry)
  | .sub source => m.calculate raw source Alu.sub false
  | .subc source => m.calculate raw source Alu.sub (m.flag .carry)
  | .inc cell => m.modifyOperand raw cell (· + 1)
  | .dec cell => m.modifyOperand raw cell (· - 1)
  | .mul => m.multiply
  | .div => m.divide
  | .and source => m.combine raw source (· &&& ·)
  | .or source => m.combine raw source (· ||| ·)
  | .xor source => m.combine raw source (· ^^^ ·)
  | .rol => m.setAcc m.acc.rollLeft
  | .ror => m.setAcc m.acc.rollRight
  | .rolc => m.rollLeftCarry
  | .rorc => m.rollRightCarry
  | .set1 => m.modifyBit raw (·.setBit · true)
  | .clr1 => m.modifyBit raw (·.setBit · false)
  | .not1 => m.modifyBit raw (·.flipBit ·)
  | .br => m.branchWhen true
  | .brf =>
    let (m, target) := m.fetchFar
    m.jump target
  | .bz => m.branchWhen (m.acc == 0)
  | .bnz => m.branchWhen (m.acc != 0)
  | .bp => m.bitBranch raw true
  | .bpc => m.bitBranchClear raw
  | .bn => m.bitBranch raw false
  | .be source => m.compareBranch raw source true
  | .bne source => m.compareBranch raw source false
  | .dbnz cell => m.countdown raw cell
  | .jmp =>
    let (m, target) := m.fetchPaged raw
    m.jump target
  | .jmpf =>
    let (m, target) := m.fetchAbsolute
    m.jump target
  | .call =>
    let (m, target) := m.fetchPaged raw
    m.callTo target
  | .callf =>
    let (m, target) := m.fetchAbsolute
    m.callTo target
  | .callr =>
    let (m, target) := m.fetchFar
    m.callTo target
  | .ret =>
    let (m, target) := m.popAddress
    m.jump target
  | .reti => m.leave

/-- The machine after the instruction of an opcode byte that has just been fetched. -/
def execute (m : Machine) (raw : UInt8) : Machine :=
  m.perform raw (.decode raw)

end VisualMemory.Machine
