import VisualMemory.Block
import VisualMemory.Psw
import VisualMemory.Register

/-!
# RAM

Nine address bits reach more than 512 bytes, because two stretches of the space are banked:

* `0x000`–`0x0FF`, main RAM: two banks, chosen by the status word;
* `0x100`–`0x17F`, the special function registers;
* `0x180`–`0x1FF`, XRAM: three banks, chosen by the bank select register.

A register may carry a *latch*, the live value of a timer counter that shares its address. A read
as programs do it sees the latch; writes, and reads behind the latch, go to the register itself.

* `Ram.Cell`: the bytes of the backing store, all banks.
* `Ram.locate`: the cell that an address stands for.
* `Ram.read`, `Ram.readRaw`, `Ram.write`, `Ram.latchCounter`: one address.
* `Ram.readBlock`, `Ram.writeBlock`: many, behind the latches.
* `Ram.readStack`, `Ram.writeStack`: the stack, always in main bank 0.
-/

namespace VisualMemory

/-- A byte of the backing store. -/
inductive Ram.Cell where
  | main (bank : Fin 2) (offset : Fin 256)
  | register (offset : Fin 128)
  | xram (bank : Fin 3) (offset : Fin 128)
  deriving DecidableEq, Repr

/-- The RAM: its three stretches with all their banks, and the counter latches of the registers. -/
structure Ram where
  /-- The two banks of main RAM, one behind the other. -/
  main : Vector UInt8 512 := .replicate 512 0
  registers : Vector UInt8 128 := .replicate 128 0
  /-- The three banks of XRAM, one behind the other. -/
  xram : Vector UInt8 384 := .replicate 384 0
  latches : Vector (Option UInt8) 128 := .replicate 128 none
  deriving DecidableEq

namespace Ram

def size : Nat := 512

/-! ## Cells -/

/-- The place of an offset in a bank of main RAM. -/
@[inline] def mainPlace (bank : Fin 2) (offset : Fin 256) : Fin 512 :=
  ⟨bank.val * 256 + offset.val, by omega⟩

/-- The place of an offset in a bank of XRAM. -/
@[inline] def xramPlace (bank : Fin 3) (offset : Fin 128) : Fin 384 :=
  ⟨bank.val * 128 + offset.val, by omega⟩

def cell (ram : Ram) : Cell → UInt8
  | .main bank offset => ram.main[mainPlace bank offset]
  | .register offset => ram.registers[offset]
  | .xram bank offset => ram.xram[xramPlace bank offset]

def setCell (ram : Ram) (c : Cell) (value : UInt8) : Ram :=
  match c with
  | .main bank offset => { ram with main := ram.main.set (mainPlace bank offset) value }
  | .register offset => { ram with registers := ram.registers.set offset value }
  | .xram bank offset => { ram with xram := ram.xram.set (xramPlace bank offset) value }

@[inline] def mainBank (ram : Ram) : Fin 2 :=
  (Psw.mk ram.registers[0x01]).ramBank

@[inline] def xramBank (ram : Ram) : Fin 3 :=
  ⟨ram.registers[0x25].toNat % 3, Nat.mod_lt _ (by decide)⟩

/-- The cell that an address, taken modulo 512, stands for under the present banks. -/
@[inline] def locate (ram : Ram) (address : Nat) : Cell :=
  let a := address % 512
  if h : a < 256 then .main ram.mainBank ⟨a, h⟩
  else if hr : a < 384 then .register ⟨a - 256, by omega⟩
  else .xram ram.xramBank ⟨a - 384, by omega⟩

/-! ## Addresses -/

/-- The byte at an address, behind the latches. -/
def readRaw (ram : Ram) (address : Nat) : UInt8 :=
  ram.cell (ram.locate address)

/-- The byte at an address as a program reads it. -/
def read (ram : Ram) (address : Nat) : UInt8 :=
  match ram.locate address with
  | .register offset => (ram.latches[offset]).getD (ram.cell (.register offset))
  | c => ram.cell c

/-- The RAM with another byte at an address; latches stay. -/
def write (ram : Ram) (address : Nat) (value : UInt8) : Ram :=
  ram.setCell (ram.locate address) value

def readBlock (ram : Ram) (address : UInt64) (count : Nat) : Array UInt8 :=
  Block.read (fun a => ram.readRaw a.toNat) address count

/-- The RAM with bytes written from `address` on. A bank selection written on the way holds for the
bytes after it. -/
def writeBlock (ram : Ram) (bytes : List UInt8) (address : UInt64) : Ram :=
  Block.write (fun ram a value => ram.write a.toNat value) ram bytes address

/-! ## Latches -/

/-- The register at an address, if it is one. -/
def register? (address : UInt16) : Option (Fin 128) :=
  if h : 0x100 ≤ address.toNat ∧ address.toNat < 0x180 then some ⟨address.toNat - 0x100, by omega⟩
  else none

/-- The RAM with a live counter value latched at a register address; elsewhere nothing is
latched. -/
def latchCounter (ram : Ram) (address : UInt16) (value : UInt8) : Ram :=
  match register? address with
  | some offset => { ram with latches := ram.latches.set offset (some value) }
  | none => ram

def latch? (ram : Ram) (address : UInt16) : Option UInt8 :=
  (register? address).bind fun offset => ram.latches[offset]

/-! ## Stack and reset -/

/-- The stack cell for a stack pointer. -/
def stackCell (sp : UInt8) : Cell :=
  .main ⟨0, Nat.zero_lt_two⟩ ⟨sp.toNat, sp.toNat_lt⟩

def readStack (ram : Ram) (sp : UInt8) : UInt8 :=
  ram.cell (stackCell sp)

def writeStack (ram : Ram) (sp value : UInt8) : Ram :=
  ram.setCell (stackCell sp) value

/-- The RAM with all registers zero and no latches; main RAM and XRAM keep their contents. -/
def resetRegisters (ram : Ram) : Ram :=
  { ram with registers := .replicate 128 0, latches := .replicate 128 none }

end Ram

end VisualMemory
