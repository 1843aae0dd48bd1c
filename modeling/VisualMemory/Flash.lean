import VisualMemory.Block
import VisualMemory.BootError
import VisualMemory.Byte

/-!
# Flash

Two banks of 64 KiB that hold the user's program and data. Programs run from bank 0; the table
instructions reach both banks.

* `Flash.ofImage`: the chip with an image at its start and zeros behind it.
* `Flash.read`, `Flash.write`, `Flash.readBanked`, `Flash.writeBanked`: one byte.
* `Flash.readBlock`, `Flash.writeBlock`: many.
-/

namespace VisualMemory

/-- The flash chip. -/
structure Flash where
  bytes : Vector UInt8 0x20000
  deriving DecidableEq

namespace Flash

def size : Nat := 0x20000

/-- The chip with an image at its start; the rest is zero. -/
def ofImage (image : Array UInt8) : Except BootError Flash :=
  if h : image.size ≤ size then
    let bytes := image.toList ++ List.replicate (size - image.size) 0
    .ok ⟨⟨bytes.toArray, by simp [bytes, size] at h ⊢; omega⟩⟩
  else .error (.imageTooLarge .flash image.size)

/-! ## Addresses -/

/-- The place in the chip that an address is folded to. -/
def place (address : Nat) : Fin 0x20000 :=
  ⟨address % size, Nat.mod_lt _ (by decide)⟩

def read (flash : Flash) (address : Nat) : UInt8 :=
  flash.bytes[place address]

def write (flash : Flash) (address : Nat) (value : UInt8) : Flash :=
  ⟨flash.bytes.set (place address) value⟩

def readBlock (flash : Flash) (address : UInt64) (count : Nat) : Array UInt8 :=
  Block.read (fun a => flash.read a.toNat) address count

def writeBlock (flash : Flash) (bytes : List UInt8) (address : UInt64) : Flash :=
  Block.write (fun flash a value => flash.write a.toNat value) flash bytes address

/-! ## Banks -/

/-- The address of an offset in the bank that bit 0 of `bank` names. -/
def bankedAddress (bank : UInt8) (offset : UInt16) : Nat :=
  (bank &&& 1).toNat * 0x10000 + offset.toNat

def readBanked (flash : Flash) (bank : UInt8) (offset : UInt16) : UInt8 :=
  flash.read (bankedAddress bank offset)

def writeBanked (flash : Flash) (bank : UInt8) (offset : UInt16) (value : UInt8) : Flash :=
  flash.write (bankedAddress bank offset) value

end Flash

end VisualMemory
