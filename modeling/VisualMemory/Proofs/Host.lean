import VisualMemory.Machine.Execute

/-!
# Instructions on a host

Every instruction once more, with all that it is made of left to a host: the bytes of its program,
registers, stack and flash, bits and sums. A host answers in a monad, so it may refuse to answer or
keep a record of what it is asked.

* `Host`: what instructions ask for.
* `Host.operandAddress`, `Host.operandValue`, `Host.fetchCompared`: their operands.
* `Host.perform`: the instructions.
* `Host.IsPlain`: the host answers as the machine does, and does nothing besides; `Host.plain` does.
* `Host.IsPlain.perform`: its instructions are the machine's.
-/

namespace VisualMemory

/-- What instructions ask for. -/
structure Host (M : Type → Type) where
  readProgram : Machine → UInt16 → M UInt8
  register : Machine → UInt16 → M UInt8
  setRegister : Machine → UInt16 → UInt8 → M Machine
  push : Machine → UInt8 → M Machine
  pop : Machine → M (Machine × UInt8)
  readBanked : Flash → UInt8 → UInt16 → M UInt8
  writeBanked : Flash → UInt8 → UInt16 → UInt8 → M Flash
  flag : Psw → Flag → M Bool
  setFlag : Psw → Flag → Bool → M Psw
  /-- The place of the indirect register that an opcode names, in the group in use. -/
  pointerPlace : Psw → UInt8 → M UInt8
  bit : UInt8 → UInt8 → M Bool
  setBit : UInt8 → UInt8 → Bool → M UInt8
  flipBit : UInt8 → UInt8 → M UInt8
  add : UInt8 → UInt8 → Bool → M Alu.Result
  sub : UInt8 → UInt8 → Bool → M Alu.Result
  mul : UInt16 → UInt8 → M UInt32
  div : UInt16 → UInt16 → M UInt16
  rem : UInt16 → UInt16 → M UInt16

theorem bitIndex_lt (raw : UInt8) : bitIndex raw < 8 := by
  have h : (bitIndex raw).toNat ≤ 7 := by
    rw [bitIndex, UInt8.toNat_and]
    exact Nat.and_le_right
  exact Nat.lt_succ_of_le h

namespace Host

variable {M : Type → Type} [Monad M] (h : Host M) (m : Machine) (raw : UInt8)

/-! ## Registers, flags, program and stack -/

def acc : M UInt8 :=
  h.register m Register.acc

def setAcc (value : UInt8) : M Machine :=
  h.setRegister m Register.acc value

def psw : M Psw := do
  return ⟨← h.register m Register.psw⟩

def setPsw (p : Psw) : M Machine :=
  h.setRegister m Register.psw p.byte

def isSet (f : Flag) : M Bool := do
  h.flag (← h.psw m) f

def changeFlag (f : Flag) (on : Bool) : M Machine := do
  h.setPsw m (← h.setFlag (← h.psw m) f on)

def fetch : M (Machine × UInt8) := do
  let byte ← h.readProgram m m.cpu.pc
  return (m.jump (m.cpu.pc + 1), byte)

def pushAddress (address : UInt16) : M Machine := do
  h.push (← h.push m address.lowByte) address.highByte

def popAddress : M (Machine × UInt16) := do
  let (m, high) ← h.pop m
  let (m, low) ← h.pop m
  return (m, .ofBytes high low)

/-! ## Operands -/

def fetchDirect : M (Machine × UInt16) := do
  let (m, low) ← h.fetch m
  return (m, ((raw &&& 0x01).toUInt16 <<< 8) ||| low.toUInt16)

def fetchBitDirect : M (Machine × UInt16) := do
  let (m, low) ← h.fetch m
  return (m, ((raw &&& 0x10).toUInt16 <<< 4) ||| low.toUInt16)

def indirectAddress : M UInt16 := do
  let place ← h.pointerPlace (← h.psw m) raw
  let pointer ← h.register m place.toUInt16
  return pointer.toUInt16 ||| ((raw &&& 0x03 &&& 0x02).toUInt16 <<< 7)

def operandAddress : Operand → M (Machine × UInt16)
  | .indirect => do return (m, ← h.indirectAddress m raw)
  | .direct | .immediate => h.fetchDirect m raw

def operandValue : Operand → M (Machine × UInt8)
  | .immediate => h.fetch m
  | source => do
    let (m, address) ← h.operandAddress m raw source
    return (m, ← h.register m address)

def fetchCompared : Operand → M (Machine × UInt8 × UInt8)
  | .immediate => do
    let lhs ← h.acc m
    let (m, byte) ← h.fetch m
    return (m, lhs, byte)
  | .direct => do
    let (m, address) ← h.fetchDirect m raw
    return (m, ← h.acc m, ← h.register m address)
  | .indirect => do
    let lhs ← h.register m (← h.indirectAddress m raw)
    let (m, byte) ← h.fetch m
    return (m, lhs, byte)

def fetchNear : M (Machine × UInt16) := do
  let (m, displacement) ← h.fetch m
  return (m, m.cpu.pc.offset displacement)

def fetchFar : M (Machine × UInt16) := do
  let (m, low) ← h.fetch m
  let (m, high) ← h.fetch m
  return (m, m.cpu.pc - 1 + .ofBytes high low)

def fetchPaged : M (Machine × UInt16) := do
  let upper : UInt16 := ((raw &&& 0x10).toUInt16 <<< 7) ||| ((raw &&& 0x07).toUInt16 <<< 8)
  let (m, low) ← h.fetch m
  return (m, (m.cpu.pc &&& 0xF000) ||| upper ||| low.toUInt16)

def fetchAbsolute : M (Machine × UInt16) := do
  let (m, high) ← h.fetch m
  let (m, low) ← h.fetch m
  return (m, .ofBytes high low)

/-! ## Families of instructions -/

def storeResult (r : Alu.Result) : M Machine := do
  let m ← h.setAcc m r.value
  let p ← h.setFlag (← h.psw m) .carry r.carry
  let p ← h.setFlag p .auxiliaryCarry r.auxiliaryCarry
  h.setPsw m (← h.setFlag p .overflow r.overflow)

def modify (address : UInt16) (f : UInt8 → M UInt8) : M Machine := do
  h.setRegister m address (← f (← h.register m address))

def modifyOperand (cell : Operand) (f : UInt8 → UInt8) : M Machine := do
  let (m, address) ← h.operandAddress m raw cell
  h.modify m address fun value => return f value

def modifyBit (f : UInt8 → UInt8 → M UInt8) : M Machine := do
  let (m, address) ← h.fetchBitDirect m raw
  h.modify m address (f · (bitIndex raw))

def combine (source : Operand) (f : UInt8 → UInt8 → UInt8) : M Machine := do
  let (m, value) ← h.operandValue m raw source
  h.setAcc m (f (← h.acc m) value)

def calculate (source : Operand) (f : UInt8 → UInt8 → Bool → M Alu.Result) (carry : Bool) :
    M Machine := do
  let (m, value) ← h.operandValue m raw source
  h.storeResult m (← f (← h.acc m) value carry)

def branchWhen (test : Bool) : M Machine := do
  let (m, target) ← h.fetchNear m
  return m.branchIf test target

def compareBranch (source : Operand) (onEqual : Bool) : M Machine := do
  let (m, lhs, rhs) ← h.fetchCompared m raw source
  let (m, target) ← h.fetchNear m
  return (← h.changeFlag m .carry (lhs < rhs)).branchIf ((lhs == rhs) == onEqual) target

def bitBranch (onSet : Bool) : M Machine := do
  let (m, address) ← h.fetchBitDirect m raw
  let (m, target) ← h.fetchNear m
  return m.branchIf ((← h.bit (← h.register m address) (bitIndex raw)) == onSet) target

def bitBranchClear : M Machine := do
  let (m, address) ← h.fetchBitDirect m raw
  let (m, target) ← h.fetchNear m
  let value ← h.register m address
  if ← h.bit value (bitIndex raw) then
    return (← h.setRegister m address (← h.setBit value (bitIndex raw) false)).jump target
  else return m

def countdown (cell : Operand) : M Machine := do
  let (m, address) ← h.operandAddress m raw cell
  let (m, target) ← h.fetchNear m
  let value := (← h.register m address) - 1
  return (← h.setRegister m address value).branchIf (value != 0) target

def callTo (target : UInt16) : M Machine := do
  return (← h.pushAddress m m.cpu.pc).jump target

def rollLeftCarry : M Machine := do
  let value ← h.acc m
  let carry ← h.isSet m .carry
  let out ← h.bit value 7
  h.changeFlag (← h.setAcc m ((value <<< 1) ||| UInt8.ofBool carry)) .carry out

def rollRightCarry : M Machine := do
  let value ← h.acc m
  let carry ← h.isSet m .carry
  let out ← h.bit value 0
  h.changeFlag (← h.setAcc m ((value >>> 1) ||| (UInt8.ofBool carry <<< 7))) .carry out

def exchange (address : UInt16) : M Machine := do
  let value ← h.register m address
  h.setAcc (← h.setRegister m address (← h.acc m)) value

def accC : M UInt16 := do
  return .ofBytes (← h.acc m) (← h.register m Register.c)

def multiply : M Machine := do
  let product ← h.mul (← h.accC m) (← h.register m Register.b)
  let m ← h.setRegister m Register.b (product >>> 16).toUInt8
  let m ← h.setAcc m (product >>> 8).toUInt8
  let m ← h.setRegister m Register.c product.toUInt8
  h.changeFlag (← h.changeFlag m .carry false) .overflow (product > 0xFFFF)

def divide : M Machine := do
  let dividend ← h.accC m
  let divisor := (← h.register m Register.b).toUInt16
  let m ←
    if divisor == 0 then
      h.changeFlag (← h.setRegister (← h.setAcc m 0xFF) Register.b 0) .overflow true
    else do
      let quotient ← h.div dividend divisor
      let m ← h.setRegister (← h.setAcc m quotient.highByte) Register.c quotient.lowByte
      h.changeFlag (← h.setRegister m Register.b (← h.rem dividend divisor).toUInt8) .overflow false
  h.changeFlag m .carry false

def tableAddress : M UInt16 := do
  return .ofBytes (← h.register m Register.trh) (← h.register m Register.trl)

def loadProgramByte : M Machine := do
  h.setAcc m (← h.readProgram m ((← h.tableAddress m) + (← h.acc m).toUInt16))

def loadFlashByte : M Machine := do
  h.setAcc m (← h.readBanked m.flash (← h.register m Register.fpr) (← h.tableAddress m))

def storeFlashByte : M Machine := do
  return { m with
    flash := ← h.writeBanked m.flash (← h.register m Register.fpr) (← h.tableAddress m) (← h.acc m) }

def leave : M Machine := do
  let (m, pc) ← h.popAddress m
  let m := m.jump pc
  match m.cpu.services with
  | service :: services =>
    let m := { m with cpu := { m.cpu with services, level := service.previousLevel } }
    return m.note (.left service.source)
  | [] => return { m with cpu := { m.cpu with level := .idle } }

/-! ## Instructions -/

def perform : Instruction → M Machine
  | .nop => return m
  | .ld source => do
    let (m, value) ← h.operandValue m raw source
    h.setAcc m value
  | .st target => do
    let (m, address) ← h.operandAddress m raw target
    h.setRegister m address (← h.acc m)
  | .mov target => do
    let (m, address) ← h.operandAddress m raw target
    let (m, value) ← h.fetch m
    h.setRegister m address value
  | .push => do
    let (m, address) ← h.fetchDirect m raw
    h.push m (← h.register m address)
  | .pop => do
    let (m, address) ← h.fetchDirect m raw
    let (m, value) ← h.pop m
    h.setRegister m address value
  | .xch cell => do
    let (m, address) ← h.operandAddress m raw cell
    h.exchange m address
  | .ldc => h.loadProgramByte m
  | .ldf => h.loadFlashByte m
  | .stf => h.storeFlashByte m
  | .add source => h.calculate m raw source h.add false
  | .addc source => do h.calculate m raw source h.add (← h.isSet m .carry)
  | .sub source => h.calculate m raw source h.sub false
  | .subc source => do h.calculate m raw source h.sub (← h.isSet m .carry)
  | .inc cell => h.modifyOperand m raw cell (· + 1)
  | .dec cell => h.modifyOperand m raw cell (· - 1)
  | .mul => h.multiply m
  | .div => h.divide m
  | .and source => h.combine m raw source (· &&& ·)
  | .or source => h.combine m raw source (· ||| ·)
  | .xor source => h.combine m raw source (· ^^^ ·)
  | .rol => do h.setAcc m (← h.acc m).rollLeft
  | .ror => do h.setAcc m (← h.acc m).rollRight
  | .rolc => h.rollLeftCarry m
  | .rorc => h.rollRightCarry m
  | .set1 => h.modifyBit m raw (h.setBit · · true)
  | .clr1 => h.modifyBit m raw (h.setBit · · false)
  | .not1 => h.modifyBit m raw h.flipBit
  | .br => h.branchWhen m true
  | .brf => do
    let (m, target) ← h.fetchFar m
    return m.jump target
  | .bz => do h.branchWhen m ((← h.acc m) == 0)
  | .bnz => do h.branchWhen m ((← h.acc m) != 0)
  | .bp => h.bitBranch m raw true
  | .bpc => h.bitBranchClear m raw
  | .bn => h.bitBranch m raw false
  | .be source => h.compareBranch m raw source true
  | .bne source => h.compareBranch m raw source false
  | .dbnz cell => h.countdown m raw cell
  | .jmp => do
    let (m, target) ← h.fetchPaged m raw
    return m.jump target
  | .jmpf => do
    let (m, target) ← h.fetchAbsolute m
    return m.jump target
  | .call => do
    let (m, target) ← h.fetchPaged m raw
    h.callTo m target
  | .callf => do
    let (m, target) ← h.fetchAbsolute m
    h.callTo m target
  | .callr => do
    let (m, target) ← h.fetchFar m
    h.callTo m target
  | .ret => do
    let (m, target) ← h.popAddress m
    return m.jump target
  | .reti => h.leave m

/-! ## Plain hosts -/

/-- The host answers as the machine does, and does nothing besides. -/
structure IsPlain : Prop where
  readProgram : ∀ m address, h.readProgram m address = pure (m.readProgram address)
  register : ∀ m address, h.register m address = pure (m.register address)
  setRegister : ∀ m address value, h.setRegister m address value = pure (m.setRegister address value)
  push : ∀ m value, h.push m value = pure (m.push value)
  pop : ∀ m, h.pop m = pure m.pop
  readBanked : ∀ flash bank offset,
    h.readBanked flash bank offset = pure (flash.readBanked bank offset)
  writeBanked : ∀ flash bank offset value,
    h.writeBanked flash bank offset value = pure (flash.writeBanked bank offset value)
  flag : ∀ p f, h.flag p f = pure (p.flag f)
  setFlag : ∀ p f on, h.setFlag p f on = pure (p.setFlag f on)
  pointerPlace : ∀ p raw, h.pointerPlace p raw = pure (p.indirectBank * 4 + (raw &&& 0x03))
  bit : ∀ (b : UInt8) {i}, i < 8 → h.bit b i = pure (b.bit i)
  setBit : ∀ (b : UInt8) {i}, i < 8 → ∀ on, h.setBit b i on = pure (b.setBit i on)
  flipBit : ∀ (b : UInt8) {i}, i < 8 → h.flipBit b i = pure (b.flipBit i)
  add : ∀ lhs rhs carry, h.add lhs rhs carry = pure (Alu.add lhs rhs carry)
  sub : ∀ lhs rhs borrow, h.sub lhs rhs borrow = pure (Alu.sub lhs rhs borrow)
  mul : ∀ a b, h.mul a b = pure (a.toUInt32 * b.toUInt32)
  div : ∀ a {b : UInt16}, b ≠ 0 → h.div a b = pure (a / b)
  rem : ∀ a {b : UInt16}, b ≠ 0 → h.rem a b = pure (a % b)

/-- The machine itself as a host. -/
def plain : Host M where
  readProgram m address := pure (m.readProgram address)
  register m address := pure (m.register address)
  setRegister m address value := pure (m.setRegister address value)
  push m value := pure (m.push value)
  pop m := pure m.pop
  readBanked flash bank offset := pure (flash.readBanked bank offset)
  writeBanked flash bank offset value := pure (flash.writeBanked bank offset value)
  flag p f := pure (p.flag f)
  setFlag p f on := pure (p.setFlag f on)
  pointerPlace p raw := pure (p.indirectBank * 4 + (raw &&& 0x03))
  bit b i := pure (b.bit i)
  setBit b i on := pure (b.setBit i on)
  flipBit b i := pure (b.flipBit i)
  add lhs rhs carry := pure (Alu.add lhs rhs carry)
  sub lhs rhs borrow := pure (Alu.sub lhs rhs borrow)
  mul a b := pure (a.toUInt32 * b.toUInt32)
  div a b := pure (a / b)
  rem a b := pure (a % b)

theorem isPlain_plain : (plain : Host M).IsPlain := by
  constructor <;> intros <;> rfl

namespace IsPlain

variable {h m raw} (hp : h.IsPlain)

include hp

theorem acc : h.acc m = pure m.acc :=
  hp.register ..

theorem setAcc (value : UInt8) : h.setAcc m value = pure (m.setAcc value) :=
  hp.setRegister ..

theorem setPsw (p : Psw) : h.setPsw m p = pure (m.setPsw p) :=
  hp.setRegister ..

variable [LawfulMonad M]

theorem psw : h.psw m = pure m.psw := by
  simp [Host.psw, hp.register, Machine.psw]

theorem isSet (f : Flag) : h.isSet m f = pure (m.flag f) := by
  simp [Host.isSet, hp.psw, hp.flag, Machine.flag]

theorem changeFlag (f : Flag) (on : Bool) : h.changeFlag m f on = pure (m.setFlag f on) := by
  simp [Host.changeFlag, hp.psw, hp.setFlag, hp.setPsw, Machine.setFlag]

theorem fetch : h.fetch m = pure m.fetch := by
  simp [Host.fetch, hp.readProgram, Machine.fetch]

theorem pushAddress (address : UInt16) : h.pushAddress m address = pure (m.pushAddress address) := by
  simp [Host.pushAddress, hp.push, Machine.pushAddress]

theorem popAddress : h.popAddress m = pure m.popAddress := by
  simp [Host.popAddress, hp.pop, Machine.popAddress]

theorem fetchDirect : h.fetchDirect m raw = pure (m.fetchDirect raw) := by
  simp [Host.fetchDirect, hp.fetch, Machine.fetchDirect]

theorem fetchBitDirect : h.fetchBitDirect m raw = pure (m.fetchBitDirect raw) := by
  simp [Host.fetchBitDirect, hp.fetch, Machine.fetchBitDirect]

theorem indirectAddress : h.indirectAddress m raw = pure (m.indirectAddress raw) := by
  simp [Host.indirectAddress, hp.psw, hp.pointerPlace, hp.register, Machine.indirectAddress]

theorem operandAddress (o : Operand) :
    h.operandAddress m raw o = pure (m.operandAddress raw o) := by
  cases o with
  | indirect => simp [Host.operandAddress, hp.indirectAddress, Machine.operandAddress]
  | direct => exact hp.fetchDirect
  | immediate => exact hp.fetchDirect

theorem operandValue (o : Operand) : h.operandValue m raw o = pure (m.operandValue raw o) := by
  cases o with
  | immediate => exact hp.fetch
  | direct => simp [Host.operandValue, hp.operandAddress, hp.register, Machine.operandValue]
  | indirect => simp [Host.operandValue, hp.operandAddress, hp.register, Machine.operandValue]

theorem fetchCompared (o : Operand) : h.fetchCompared m raw o = pure (m.fetchCompared raw o) := by
  cases o with
  | direct => simp [Host.fetchCompared, hp.fetchDirect, hp.acc, hp.register, Machine.fetchCompared]
  | immediate =>
    simp only [Host.fetchCompared, hp.acc, hp.fetch, pure_bind]
    rfl
  | indirect =>
    simp only [Host.fetchCompared, hp.indirectAddress, hp.register, hp.fetch, pure_bind]
    rfl

theorem fetchNear : h.fetchNear m = pure m.fetchNear := by
  simp [Host.fetchNear, hp.fetch, Machine.fetchNear]

theorem fetchFar : h.fetchFar m = pure m.fetchFar := by
  simp [Host.fetchFar, hp.fetch, Machine.fetchFar]

theorem fetchPaged : h.fetchPaged m raw = pure (m.fetchPaged raw) := by
  simp [Host.fetchPaged, hp.fetch, Machine.fetchPaged]

theorem fetchAbsolute : h.fetchAbsolute m = pure m.fetchAbsolute := by
  simp [Host.fetchAbsolute, hp.fetch, Machine.fetchAbsolute]

theorem storeResult (r : Alu.Result) : h.storeResult m r = pure (m.storeResult r) := by
  simp only [Host.storeResult, hp.setAcc, hp.psw, hp.setFlag, hp.setPsw, pure_bind]
  rfl

theorem modify (address : UInt16) {f : UInt8 → M UInt8} {g : UInt8 → UInt8}
    (hf : ∀ value, f value = pure (g value)) :
    h.modify m address f = pure (m.modify address g) := by
  simp [Host.modify, hp.register, hf, hp.setRegister, Machine.modify]

theorem modifyOperand (cell : Operand) (f : UInt8 → UInt8) :
    h.modifyOperand m raw cell f = pure (m.modifyOperand raw cell f) := by
  rw [Host.modifyOperand, hp.operandAddress, pure_bind]
  exact hp.modify _ fun _ => rfl

theorem modifyBit {f : UInt8 → UInt8 → M UInt8} {g : UInt8 → UInt8 → UInt8}
    (hf : ∀ value {i : UInt8}, i < 8 → f value i = pure (g value i)) :
    h.modifyBit m raw f = pure (m.modifyBit raw g) := by
  rw [Host.modifyBit, hp.fetchBitDirect, pure_bind]
  exact hp.modify _ fun value => hf value (bitIndex_lt raw)

theorem combine (source : Operand) (f : UInt8 → UInt8 → UInt8) :
    h.combine m raw source f = pure (m.combine raw source f) := by
  simp [Host.combine, hp.operandValue, hp.acc, hp.setAcc, Machine.combine]

theorem calculate (source : Operand) {f : UInt8 → UInt8 → Bool → M Alu.Result}
    {g : UInt8 → UInt8 → Bool → Alu.Result} (hf : ∀ a b c, f a b c = pure (g a b c))
    (carry : Bool) : h.calculate m raw source f carry = pure (m.calculate raw source g carry) := by
  simp [Host.calculate, hp.operandValue, hp.acc, hf, hp.storeResult, Machine.calculate]

theorem branchWhen (test : Bool) : h.branchWhen m test = pure (m.branchWhen test) := by
  simp [Host.branchWhen, hp.fetchNear, Machine.branchWhen]

theorem compareBranch (source : Operand) (onEqual : Bool) :
    h.compareBranch m raw source onEqual = pure (m.compareBranch raw source onEqual) := by
  simp [Host.compareBranch, hp.fetchCompared, hp.fetchNear, hp.changeFlag, Machine.compareBranch]

theorem bitBranch (onSet : Bool) : h.bitBranch m raw onSet = pure (m.bitBranch raw onSet) := by
  simp [Host.bitBranch, hp.fetchBitDirect, hp.fetchNear, hp.register, hp.bit _ (bitIndex_lt raw),
    Machine.bitBranch]

theorem bitBranchClear : h.bitBranchClear m raw = pure (m.bitBranchClear raw) := by
  simp only [Host.bitBranchClear, hp.fetchBitDirect, hp.fetchNear, hp.register, hp.setRegister,
    hp.bit _ (bitIndex_lt raw), hp.setBit _ (bitIndex_lt raw), pure_bind, Machine.bitBranchClear]
  split
  · rfl
  · rfl

theorem countdown (cell : Operand) : h.countdown m raw cell = pure (m.countdown raw cell) := by
  simp [Host.countdown, hp.operandAddress, hp.fetchNear, hp.register, hp.setRegister,
    Machine.countdown]

theorem callTo (target : UInt16) : h.callTo m target = pure (m.callTo target) := by
  simp [Host.callTo, hp.pushAddress, Machine.callTo]

theorem rollLeftCarry : h.rollLeftCarry m = pure m.rollLeftCarry := by
  simp [Host.rollLeftCarry, hp.acc, hp.isSet, hp.bit _ (by decide : (7 : UInt8) < 8), hp.setAcc,
    hp.changeFlag, Machine.rollLeftCarry]

theorem rollRightCarry : h.rollRightCarry m = pure m.rollRightCarry := by
  simp [Host.rollRightCarry, hp.acc, hp.isSet, hp.bit _ (by decide : (0 : UInt8) < 8), hp.setAcc,
    hp.changeFlag, Machine.rollRightCarry]

theorem exchange (address : UInt16) : h.exchange m address = pure (m.exchange address) := by
  simp [Host.exchange, hp.register, hp.acc, hp.setRegister, hp.setAcc, Machine.exchange]

theorem accC : h.accC m = pure m.accC := by
  simp [Host.accC, hp.acc, hp.register, Machine.accC]

theorem multiply : h.multiply m = pure m.multiply := by
  simp only [Host.multiply, hp.accC, hp.register, hp.mul, hp.setRegister, hp.setAcc, hp.changeFlag,
    pure_bind]
  rfl

theorem divide : h.divide m = pure m.divide := by
  simp only [Host.divide, hp.accC, hp.register, hp.setRegister, hp.setAcc, hp.changeFlag, pure_bind,
    Machine.divide]
  split
  · rfl
  · rename_i hzero
    have hne : (m.register Register.b).toUInt16 ≠ 0 := fun heq => hzero (beq_iff_eq.mpr heq)
    simp only [hp.div _ hne, hp.rem _ hne, pure_bind]

theorem tableAddress : h.tableAddress m = pure m.tableAddress := by
  simp [Host.tableAddress, hp.register, Machine.tableAddress]

theorem loadProgramByte : h.loadProgramByte m = pure m.loadProgramByte := by
  simp [Host.loadProgramByte, hp.tableAddress, hp.acc, hp.readProgram, hp.setAcc,
    Machine.loadProgramByte]

theorem loadFlashByte : h.loadFlashByte m = pure m.loadFlashByte := by
  simp [Host.loadFlashByte, hp.register, hp.tableAddress, hp.readBanked, hp.setAcc,
    Machine.loadFlashByte]

theorem storeFlashByte : h.storeFlashByte m = pure m.storeFlashByte := by
  simp [Host.storeFlashByte, hp.register, hp.tableAddress, hp.acc, hp.writeBanked,
    Machine.storeFlashByte]

theorem leave : h.leave m = pure m.leave := by
  simp only [Host.leave, hp.popAddress, pure_bind, Machine.leave]
  cases (m.popAddress.1.jump m.popAddress.2).cpu.services with
  | nil => rfl
  | cons service services => rfl

/-- On a plain host every instruction is what the machine does. -/
theorem perform (i : Instruction) : h.perform m raw i = pure (m.perform raw i) := by
  cases i with
  | add source => exact hp.calculate source hp.add false
  | addc source =>
    rw [Host.perform, hp.isSet, pure_bind]
    exact hp.calculate source hp.add _
  | sub source => exact hp.calculate source hp.sub false
  | subc source =>
    rw [Host.perform, hp.isSet, pure_bind]
    exact hp.calculate source hp.sub _
  | inc cell | dec cell => exact hp.modifyOperand cell _
  | and source | or source | xor source => exact hp.combine source _
  | set1 => exact hp.modifyBit fun value _ hi => hp.setBit value hi true
  | clr1 => exact hp.modifyBit fun value _ hi => hp.setBit value hi false
  | not1 => exact hp.modifyBit fun value _ hi => hp.flipBit value hi
  | ldc => exact hp.loadProgramByte
  | ldf => exact hp.loadFlashByte
  | stf => exact hp.storeFlashByte
  | mul => exact hp.multiply
  | div => exact hp.divide
  | rolc => exact hp.rollLeftCarry
  | rorc => exact hp.rollRightCarry
  | bpc => exact hp.bitBranchClear
  | be source | bne source => exact hp.compareBranch source _
  | bp | bn => exact hp.bitBranch _
  | dbnz cell => exact hp.countdown cell
  | reti => exact hp.leave
  | nop => rfl
  | br => exact hp.branchWhen true
  | ld | st | mov | xch =>
    simp [Host.perform, hp.operandValue, hp.operandAddress, hp.fetch, hp.acc, hp.setAcc,
      hp.setRegister, hp.exchange, Machine.perform]
  | push | pop =>
    simp [Host.perform, hp.fetchDirect, hp.register, hp.push, hp.pop, hp.setRegister,
      Machine.perform]
  | rol | ror | bz | bnz =>
    simp [Host.perform, hp.acc, hp.setAcc, hp.branchWhen, Machine.perform]
  | brf | jmp | jmpf | call | callf | callr | ret =>
    simp [Host.perform, hp.fetchFar, hp.fetchPaged, hp.fetchAbsolute, hp.popAddress, hp.callTo,
      Machine.perform]

end IsPlain

end Host

end VisualMemory
