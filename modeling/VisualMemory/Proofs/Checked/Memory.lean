import VisualMemory.Machine.Basic
import VisualMemory.Proofs.Checked.Basic

/-!
# Checked memory

Every access of RAM, ROM and flash with its bounds checks; the functions are named after those of
the machine that they check. An address is folded into its region before the access, so all of them
pass: the lemmas have no hypotheses but for a latch, which has to be at a register.
-/

namespace VisualMemory.Checked

open Ram (Cell)

/-! ## RAM -/

theorem register_lt (offset : Fin 128) : offset.val < 128 :=
  offset.isLt

/-- The place of a register by its address. -/
def registerPlace (address : UInt16) : Checked (Fin 128) := do
  let offset ← sub address 0x100
  index 128 offset.toNat

/-- A register by its address, behind its latch. -/
def registerAt (ram : Ram) (address : UInt16) : Checked UInt8 := do
  return ram.registers.get (← registerPlace address)

def locate (ram : Ram) (address : Nat) : Checked Cell := do
  let a ← rem address 512
  if a < 0x100 then
    let bank ← ramBank ⟨← registerAt ram Register.psw⟩
    return .main (← index 2 bank) (← index 256 a)
  else if a < 0x180 then
    let offset ← sub a 0x100
    return .register (← index 128 offset)
  else
    let bank ← rem (← registerAt ram Register.xbnk).toNat 3
    let offset ← sub a 0x180
    return .xram (← index 3 bank) (← index 128 offset)

def readRaw (ram : Ram) (address : Nat) : Checked UInt8 := do
  return ram.cell (← locate ram address)

def read (ram : Ram) (address : Nat) : Checked UInt8 := do
  match ← locate ram address with
  | .register offset => return (ram.latches.get offset).getD (ram.cell (.register offset))
  | _ => readRaw ram address

def write (ram : Ram) (address : Nat) (value : UInt8) : Checked Ram := do
  return ram.setCell (← locate ram address) value

def latchCounter (ram : Ram) (address : UInt16) (value : UInt8) : Checked Ram := do
  require (0x100 ≤ address ∧ address < 0x180) .assertion
  let offset ← registerPlace address
  return { ram with latches := ram.latches.set offset (some value) (register_lt offset) }

def stackCell (sp : UInt8) : Checked Cell := do
  return .main (← index 2 0) (← index 256 sp.toNat)

def readStack (ram : Ram) (sp : UInt8) : Checked UInt8 := do
  return ram.cell (← stackCell sp)

def writeStack (ram : Ram) (sp value : UInt8) : Checked Ram := do
  return ram.setCell (← stackCell sp) value

theorem registerPlace_eq {address : UInt16} {o : Fin 128} (h : Ram.register? address = some o) :
    registerPlace address = .ok o := by
  unfold Ram.register? at h
  split at h
  · rename_i hbounds
    rw [← Option.some.inj h]
    have hle : (0x100 : UInt16) ≤ address := hbounds.1
    have hoffset : (address - 0x100).toNat = address.toNat - 0x100 :=
      UInt16.toNat_sub_of_le _ _ hle
    have hsub : sub address 0x100 = .ok (address - 0x100) := sub_eq hbounds.1
    have hlt : (address - 0x100).toNat < 128 := by omega
    rw [registerPlace, hsub, ok_bind, index_eq hlt]
    exact congrArg Except.ok (Fin.ext hoffset)
  · cases h

theorem registerAt_eq (ram : Ram) {address : UInt16} {o : Fin 128}
    (h : Ram.register? address = some o) : registerAt ram address = .ok (ram.registers.get o) := by
  rw [registerAt, registerPlace_eq h]
  rfl

theorem locate_eq (ram : Ram) (address : Nat) : locate ram address = .ok (ram.locate address) := by
  have hlt : address % 512 < 512 := Nat.mod_lt _ (by decide)
  have hrem : rem address 512 = .ok (address % 512) := rem_eq (by decide)
  rw [locate, hrem, ok_bind, Ram.locate]
  by_cases hmain : address % 512 < 256
  · rw [if_pos hmain, dif_pos hmain, registerAt_eq ram (o := 1) rfl, ok_bind, ramBank_eq, ok_bind,
      index_eq (Fin.isLt _), ok_bind, index_eq hmain]
    rfl
  · rw [if_neg hmain, dif_neg hmain]
    by_cases hregister : address % 512 < 384
    · have hsub : sub (address % 512) 0x100 = .ok (address % 512 - 0x100) :=
        sub_eq (Nat.not_lt.mp hmain)
      have hoffset : address % 512 - 0x100 < 128 := by omega
      rw [if_pos hregister, dif_pos hregister, hsub, ok_bind, index_eq hoffset]
      rfl
    · have hsub : sub (address % 512) 0x180 = .ok (address % 512 - 0x180) :=
        sub_eq (Nat.not_lt.mp hregister)
      have hoffset : address % 512 - 0x180 < 128 := by omega
      have hbank (b : UInt8) : rem b.toNat 3 = .ok (b.toNat % 3) := rem_eq (by decide)
      rw [if_neg hregister, dif_neg hregister, registerAt_eq ram (o := 0x25) rfl, ok_bind, hbank,
        ok_bind, hsub, ok_bind, index_eq (Nat.mod_lt _ (by decide)), ok_bind, index_eq hoffset]
      rfl

theorem readRaw_eq (ram : Ram) (address : Nat) :
    readRaw ram address = .ok (ram.readRaw address) := by
  rw [readRaw, locate_eq]
  rfl

theorem read_eq (ram : Ram) (address : Nat) : read ram address = .ok (ram.read address) := by
  rw [read, locate_eq, ok_bind, readRaw_eq, Ram.read, Ram.readRaw]
  cases ram.locate address <;> rfl

theorem write_eq (ram : Ram) (address : Nat) (value : UInt8) :
    write ram address value = .ok (ram.write address value) := by
  rw [write, locate_eq]
  rfl

theorem latchCounter_eq (ram : Ram) {address : UInt16} {o : Fin 128}
    (h : Ram.register? address = some o) (value : UInt8) :
    latchCounter ram address value = .ok (ram.latchCounter address value) := by
  have hbounds : 0x100 ≤ address ∧ address < 0x180 := by
    unfold Ram.register? at h
    split at h
    · assumption
    · cases h
  rw [latchCounter, require_of hbounds, ok_bind, registerPlace_eq h, Ram.latchCounter, h]
  rfl

theorem stackCell_eq (sp : UInt8) : stackCell sp = .ok (Ram.stackCell sp) := by
  rw [stackCell, index_eq (by decide), ok_bind, index_eq sp.toNat_lt]
  rfl

theorem readStack_eq (ram : Ram) (sp : UInt8) : readStack ram sp = .ok (ram.readStack sp) := by
  rw [readStack, stackCell_eq]
  rfl

theorem writeStack_eq (ram : Ram) (sp value : UInt8) :
    writeStack ram sp value = .ok (ram.writeStack sp value) := by
  rw [writeStack, stackCell_eq]
  rfl

/-! ## ROM and flash -/

/-- An address folded into a region of a given size. -/
def wrap (address size : Nat) : Checked Nat :=
  if size = 0 then return 0 else rem address size

def readRom (rom : Rom) (address : Nat) : Checked UInt8 := do
  let a ← wrap address rom.bytes.size
  return rom.bytes[a]?.getD 0xFF

def loadRom (rom : Rom) (address : Nat) (value : UInt8) : Checked Rom := do
  let a ← wrap address rom.bytes.size
  return { bytes := rom.bytes.setIfInBounds a value, size_le := by simpa using rom.size_le }

def readFlash (flash : Flash) (address : Nat) : Checked UInt8 := do
  return flash.bytes.get (← index 0x20000 (← wrap address 0x20000))

def writeFlash (flash : Flash) (address : Nat) (value : UInt8) : Checked Flash := do
  let place ← index 0x20000 (← wrap address 0x20000)
  return ⟨flash.bytes.set place value⟩

def bankedAddress (bank : UInt8) (offset : UInt16) : Checked Nat := do
  let start ← mul (bank &&& 1).toNat 0x10000
  add start offset.toNat

def readBanked (flash : Flash) (bank : UInt8) (offset : UInt16) : Checked UInt8 := do
  readFlash flash (← bankedAddress bank offset)

def writeBanked (flash : Flash) (bank : UInt8) (offset : UInt16) (value : UInt8) :
    Checked Flash := do
  writeFlash flash (← bankedAddress bank offset) value

theorem wrap_eq {size : Nat} (h : size ≠ 0) (address : Nat) :
    wrap address size = .ok (address % size) := by
  rw [wrap, if_neg h]
  exact rem_eq h

theorem readRom_eq (rom : Rom) (address : Nat) : readRom rom address = .ok (rom.read address) := by
  rw [readRom, Rom.read]
  by_cases h : 0 < rom.bytes.size
  · have hlt : address % rom.bytes.size < rom.bytes.size := Nat.mod_lt _ h
    rw [wrap_eq (Nat.ne_of_gt h), ok_bind, dif_pos h, pure_eq_ok, Array.getElem?_eq_getElem hlt]
    rfl
  · have hsize : rom.bytes.size = 0 := Nat.eq_zero_of_not_pos h
    rw [wrap, if_pos hsize, dif_neg h, pure_eq_ok, ok_bind, pure_eq_ok,
      Array.getElem?_eq_none (Nat.le_of_eq hsize)]
    rfl

theorem loadRom_eq (rom : Rom) (address : Nat) (value : UInt8) :
    loadRom rom address value = .ok (rom.load address value) := by
  rw [loadRom, Rom.load]
  by_cases h : 0 < rom.bytes.size
  · have hlt : address % rom.bytes.size < rom.bytes.size := Nat.mod_lt _ h
    have hset : rom.bytes.setIfInBounds (address % rom.bytes.size) value =
        rom.bytes.set (rom.place h address) value := dif_pos hlt
    rw [wrap_eq (Nat.ne_of_gt h), ok_bind, dif_pos h, pure_eq_ok]
    simp only [hset]
  · have hsize : rom.bytes.size = 0 := Nat.eq_zero_of_not_pos h
    have hset : rom.bytes.setIfInBounds 0 value = rom.bytes := dif_neg h
    rw [wrap, if_pos hsize, dif_neg h, pure_eq_ok, ok_bind, pure_eq_ok]
    simp only [hset]

theorem readFlash_eq (flash : Flash) (address : Nat) :
    readFlash flash address = .ok (flash.read address) := by
  rw [readFlash, wrap_eq (by decide), ok_bind, index_eq (Nat.mod_lt _ (by decide))]
  rfl

theorem writeFlash_eq (flash : Flash) (address : Nat) (value : UInt8) :
    writeFlash flash address value = .ok (flash.write address value) := by
  rw [writeFlash, wrap_eq (by decide), ok_bind, index_eq (Nat.mod_lt _ (by decide))]
  rfl

theorem bankedAddress_eq (bank : UInt8) (offset : UInt16) :
    bankedAddress bank offset = .ok (Flash.bankedAddress bank offset) := by
  have hbank := (bank &&& 1).toNat_lt
  have hoffset := offset.toNat_lt
  have hmul : mul (bank &&& 1).toNat 0x10000 = .ok ((bank &&& 1).toNat * 0x10000) := by
    apply mul_eq
    show (bank &&& 1).toNat * 0x10000 < 0x10000000000000000
    omega
  rw [bankedAddress, hmul, ok_bind]
  apply add_eq
  show (bank &&& 1).toNat * 0x10000 + offset.toNat < 0x10000000000000000
  omega

theorem readBanked_eq (flash : Flash) (bank : UInt8) (offset : UInt16) :
    readBanked flash bank offset = .ok (flash.readBanked bank offset) := by
  rw [readBanked, bankedAddress_eq, ok_bind, readFlash_eq]
  rfl

theorem writeBanked_eq (flash : Flash) (bank : UInt8) (offset : UInt16) (value : UInt8) :
    writeBanked flash bank offset value = .ok (flash.writeBanked bank offset value) := by
  rw [writeBanked, bankedAddress_eq, ok_bind, writeFlash_eq]
  rfl

end VisualMemory.Checked
