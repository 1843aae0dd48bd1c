import VisualMemory.Block
import VisualMemory.BootError
import VisualMemory.Event

/-!
# ROM

Up to 64 KiB of firmware. A smaller image repeats through the address space, and a missing one reads
as an open bus. Programs cannot write to it; loaders can.

* `Rom.ofImage`: the ROM with an image.
* `Rom.read`, `Rom.load`, `Rom.write`: one address; `load` is the loader's write, `write` the
  program's.
* `Rom.readBlock`, `Rom.loadBlock`: many.
-/

namespace VisualMemory

/-- The firmware ROM. -/
structure Rom where
  bytes : Array UInt8 := #[]
  size_le : bytes.size ≤ 0x10000 := by decide
  deriving DecidableEq

namespace Rom

def ofImage (image : Array UInt8) : Except BootError Rom :=
  if h : image.size ≤ 0x10000 then .ok ⟨image, h⟩
  else .error (.imageTooLarge .rom image.size)

def size (rom : Rom) : Nat :=
  rom.bytes.size

/-! ## Addresses -/

/-- The place in a present image that an address is folded to. -/
def place (rom : Rom) (h : 0 < rom.bytes.size) (address : Nat) : Fin rom.bytes.size :=
  ⟨address % rom.bytes.size, Nat.mod_lt _ h⟩

/-- The byte at an address, folded into the image; all ones without an image. -/
def read (rom : Rom) (address : Nat) : UInt8 :=
  if h : 0 < rom.bytes.size then rom.bytes[rom.place h address] else 0xFF

/-- The ROM with another byte at an address, folded into the image; an absent image stays absent. -/
def load (rom : Rom) (address : Nat) (value : UInt8) : Rom :=
  if h : 0 < rom.bytes.size then
    { bytes := rom.bytes.set (rom.place h address) value
      size_le := by simpa using rom.size_le }
  else rom

/-- A program's write: the ROM stays, and the attempt is an event. -/
def write (rom : Rom) (address : Nat) (value : UInt8) : Rom × Event :=
  (rom, .romWriteIgnored address value)

def readBlock (rom : Rom) (address : UInt64) (count : Nat) : Array UInt8 :=
  Block.read (fun a => rom.read a.toNat) address count

def loadBlock (rom : Rom) (bytes : List UInt8) (address : UInt64) : Rom :=
  Block.write (fun rom a value => rom.load a.toNat value) rom bytes address

end Rom

end VisualMemory
