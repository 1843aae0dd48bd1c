import VisualMemory.Proofs.Checked.Memory
import VisualMemory.Proofs.Host

/-!
# Checked instructions

Every instruction with the checks of the arithmetic, the accesses and the bit helpers that it uses.
None of them can fail, whatever the registers hold: `perform_eq`, for all instructions and operand
forms.

* `Checked.addFlags`, `Checked.subFlags`: addition and subtraction with flags.
* `Checked.register`, `Checked.push` and their kin: what instructions are made of.
* `Checked.host`, `Checked.isPlain_host`: the host that checks, and that no check of it fails.
* `Checked.execute`: instructions.
-/

namespace VisualMemory.Checked

/-! ## Addition and subtraction -/

/-- `lhs + rhs + carry`, added up in a wide word, and the low halves in a byte. -/
def addFlags (lhs rhs : UInt8) (carry : Bool) : Checked Alu.Result := do
  let c := UInt8.ofBool carry
  let wide ← add (← add lhs.toUInt16 rhs.toUInt16) c.toUInt16
  let value ← lowByte wide
  let half ← add (← add (lhs &&& 0x0F) (rhs &&& 0x0F)) c
  return {
    value
    carry := wide > 0xFF
    auxiliaryCarry := half > 0x0F
    overflow := ((lhs ^^^ value) &&& (rhs ^^^ value)).bit 7 }

/-- `lhs - rhs - borrow`, compared in a wide word, and the low halves in a byte. -/
def subFlags (lhs rhs : UInt8) (borrow : Bool) : Checked Alu.Result := do
  let b := UInt8.ofBool borrow
  let value := lhs - rhs - b
  let wide ← add rhs.toUInt16 b.toUInt16
  let half ← add (rhs &&& 0x0F) b
  return {
    value
    carry := lhs.toUInt16 < wide
    auxiliaryCarry := (lhs &&& 0x0F) < half
    overflow := ((lhs ^^^ rhs) &&& (lhs ^^^ value)).bit 7 }

theorem toNat_ofBool_le (b : Bool) : (UInt8.ofBool b).toNat ≤ 1 := by
  cases b <;> decide

theorem toNat_and_low (b : UInt8) : (b &&& 0x0F).toNat ≤ 15 := by
  rw [UInt8.toNat_and]
  exact Nat.and_le_right

theorem addWide_eq {a b : UInt16} (ha : a.toNat ≤ 510) (hb : b.toNat ≤ 255) :
    add a b = .ok (a + b) ∧ (a + b).toNat = a.toNat + b.toNat := by
  have hlt : a.toNat + b.toNat < 0x10000 := by omega
  exact ⟨add_eq hlt, by rw [UInt16.toNat_add, Nat.mod_eq_of_lt hlt]⟩

theorem addByte_eq {a b : UInt8} (ha : a.toNat ≤ 30) (hb : b.toNat ≤ 15) :
    add a b = .ok (a + b) ∧ (a + b).toNat = a.toNat + b.toNat := by
  have hlt : a.toNat + b.toNat < 0x100 := by omega
  exact ⟨add_eq hlt, by rw [UInt8.toNat_add, Nat.mod_eq_of_lt hlt]⟩

theorem toNat_toUInt16_le (b : UInt8) : b.toUInt16.toNat ≤ 255 := by
  rw [UInt8.toNat_toUInt16]
  exact Nat.le_of_lt_succ b.toNat_lt

theorem addFlags_eq (lhs rhs : UInt8) (carry : Bool) :
    addFlags lhs rhs carry = .ok (Alu.add lhs rhs carry) := by
  let c := UInt8.ofBool carry
  have hc : c.toNat ≤ 1 := toNat_ofBool_le carry
  have hl := toNat_toUInt16_le lhs
  have hr := toNat_toUInt16_le rhs
  obtain ⟨hsum, hsum'⟩ := addWide_eq (by omega : lhs.toUInt16.toNat ≤ 510) hr
  obtain ⟨hwide, hwide'⟩ := addWide_eq (by omega : (lhs.toUInt16 + rhs.toUInt16).toNat ≤ 510)
    (toNat_toUInt16_le c)
  have hl' := toNat_and_low lhs
  have hr' := toNat_and_low rhs
  obtain ⟨hlow, hlow'⟩ := addByte_eq (by omega : (lhs &&& 0x0F).toNat ≤ 30) hr'
  obtain ⟨hhalf, -⟩ := addByte_eq (by omega : ((lhs &&& 0x0F) + (rhs &&& 0x0F)).toNat ≤ 30)
    (by omega : c.toNat ≤ 15)
  have hvalue : (lhs.toUInt16 + rhs.toUInt16 + c.toUInt16).toUInt8 = lhs + rhs + c := by
    simp only [UInt16.toUInt8_add, UInt8.toUInt8_toUInt16]
  have hcarry : decide (lhs.toUInt16 + rhs.toUInt16 + c.toUInt16 > 0xFF) =
      decide (lhs.toNat + rhs.toNat + c.toNat > 0xFF) := by
    rw [decide_eq_decide, gt_iff_lt, UInt16.lt_iff_toNat_lt, hwide', hsum', UInt8.toNat_toUInt16,
      UInt8.toNat_toUInt16, UInt8.toNat_toUInt16]
    exact Iff.rfl
  simp only [addFlags, Alu.add, hsum, hwide, hlow, hhalf, lowByte_eq, ok_bind, pure_eq_ok, hvalue,
    hcarry, c]

theorem subFlags_eq (lhs rhs : UInt8) (borrow : Bool) :
    subFlags lhs rhs borrow = .ok (Alu.sub lhs rhs borrow) := by
  let b := UInt8.ofBool borrow
  have hb : b.toNat ≤ 1 := toNat_ofBool_le borrow
  have hr := toNat_toUInt16_le rhs
  obtain ⟨hwide, hwide'⟩ := addWide_eq (by omega : rhs.toUInt16.toNat ≤ 510) (toNat_toUInt16_le b)
  have hr' := toNat_and_low rhs
  obtain ⟨hhalf, -⟩ := addByte_eq (by omega : (rhs &&& 0x0F).toNat ≤ 30) (by omega : b.toNat ≤ 15)
  have hcarry : decide (lhs.toUInt16 < rhs.toUInt16 + b.toUInt16) =
      decide (lhs.toNat < rhs.toNat + b.toNat) := by
    rw [decide_eq_decide, UInt16.lt_iff_toNat_lt, hwide', UInt8.toNat_toUInt16,
      UInt8.toNat_toUInt16, UInt8.toNat_toUInt16]
  simp only [subFlags, Alu.sub, hwide, hhalf, ok_bind, pure_eq_ok, hcarry, b]

/-! ## Registers, program memory and stack -/

def register (m : Machine) (address : UInt16) : Checked UInt8 :=
  read m.ram address.toNat

def setRegister (m : Machine) (address : UInt16) (value : UInt8) : Checked Machine := do
  return { m with ram := ← write m.ram address.toNat value }

def readProgram (m : Machine) (address : UInt16) : Checked UInt8 :=
  match m.bank with
  | .rom => readRom m.rom address.toNat
  | .flash => readBanked m.flash 0 address

def push (m : Machine) (value : UInt8) : Checked Machine := do
  let sp := (← readRaw m.ram Register.sp.toNat) + 1
  return { m with ram := ← write (← writeStack m.ram sp value) Register.sp.toNat sp }

def pop (m : Machine) : Checked (Machine × UInt8) := do
  let sp ← readRaw m.ram Register.sp.toNat
  let value ← readStack m.ram sp
  return ({ m with ram := ← write m.ram Register.sp.toNat (sp - 1) }, value)

/-- The place of an indirect register: its group and its number in the group. -/
def pointerPlace (p : Psw) (raw : UInt8) : Checked UInt8 := do
  let group ← mul (← indirectBank p) 4
  add group (raw &&& 0x03)

section

variable (m : Machine)

theorem register_eq (address : UInt16) : register m address = .ok (m.register address) :=
  read_eq ..

theorem setRegister_eq (address : UInt16) (value : UInt8) :
    setRegister m address value = .ok (m.setRegister address value) := by
  rw [setRegister, write_eq]
  rfl

theorem readProgram_eq (address : UInt16) :
    readProgram m address = .ok (m.readProgram address) := by
  rw [readProgram, Machine.readProgram]
  cases m.bank with
  | rom => exact readRom_eq ..
  | flash => exact readBanked_eq ..

theorem push_eq (value : UInt8) : push m value = .ok (m.push value) := by
  simp only [push, readRaw_eq, writeStack_eq, write_eq, ok_bind, pure_eq_ok]
  rfl

theorem pop_eq : pop m = .ok m.pop := by
  rw [pop, readRaw_eq, ok_bind, readStack_eq, ok_bind, write_eq]
  rfl

theorem pointerPlace_eq (p : Psw) (raw : UInt8) :
    pointerPlace p raw = .ok (p.indirectBank * 4 + (raw &&& 0x03)) := by
  have hbank : p.indirectBank.toNat ≤ 3 := by
    rw [Psw.indirectBank, UInt8.toNat_and]
    exact Nat.and_le_right
  have hj : (raw &&& 0x03).toNat ≤ 3 := by
    rw [UInt8.toNat_and]
    exact Nat.and_le_right
  have hlt : p.indirectBank.toNat * 4 < 0x100 := by omega
  have hgroup : (p.indirectBank * 4).toNat = p.indirectBank.toNat * 4 := by
    rw [UInt8.toNat_mul]
    exact Nat.mod_eq_of_lt hlt
  have hmul : mul p.indirectBank 4 = .ok (p.indirectBank * 4) := mul_eq hlt
  have hsum : (p.indirectBank * 4).toNat + (raw &&& 0x03).toNat < 0x100 := by omega
  rw [pointerPlace, indirectBank_eq, ok_bind, hmul, ok_bind]
  exact add_eq hsum

end

theorem mulWord_eq (a : UInt16) (b : UInt8) :
    mul a.toUInt32 b.toUInt32 = .ok (a.toUInt32 * b.toUInt32) := by
  have ha := a.toNat_lt
  have hb := b.toNat_lt
  apply mul_eq
  show a.toUInt32.toNat * b.toUInt32.toNat < 0x100000000
  rw [UInt16.toNat_toUInt32, UInt8.toNat_toUInt32]
  exact Nat.lt_of_le_of_lt (Nat.mul_le_mul (Nat.le_of_lt ha) (Nat.le_of_lt hb)) (by decide)

/-! ## Instructions -/

/-- The host that checks everything. -/
def host : Host Checked where
  readProgram := readProgram
  register := register
  setRegister := setRegister
  push := push
  pop := pop
  readBanked := readBanked
  writeBanked := writeBanked
  flag := flag
  setFlag := setFlag
  pointerPlace := pointerPlace
  bit := byteBit
  setBit := setByteBit
  flipBit := flipByteBit
  add := addFlags
  sub := subFlags
  mul a b := mul a.toUInt32 b.toUInt32
  div := div
  rem := rem

theorem isPlain_host : host.IsPlain where
  readProgram := readProgram_eq
  register := register_eq
  setRegister := setRegister_eq
  push := push_eq
  pop := pop_eq
  readBanked := readBanked_eq
  writeBanked := writeBanked_eq
  flag := flag_eq
  setFlag := setFlag_eq
  pointerPlace := pointerPlace_eq
  bit b _ hi := byteBit_eq b hi
  setBit b _ hi := setByteBit_eq b hi
  flipBit b _ hi := flipByteBit_eq b hi
  add := addFlags_eq
  sub := subFlags_eq
  mul := mulWord_eq
  div _ _ hb := div_eq fun hzero => hb (UInt16.toNat_inj.mp hzero)
  rem _ _ hb := rem_eq fun hzero => hb (UInt16.toNat_inj.mp hzero)

/-- **No instruction can fail**, in any operand form and whatever the registers hold. -/
theorem perform_eq (m : Machine) (raw : UInt8) (i : Instruction) :
    host.perform m raw i = .ok (m.perform raw i) :=
  isPlain_host.perform i

def execute (m : Machine) (raw : UInt8) : Checked Machine :=
  host.perform m raw (.decode raw)

theorem execute_eq (m : Machine) (raw : UInt8) : execute m raw = .ok (m.execute raw) :=
  perform_eq ..

end VisualMemory.Checked
