import VisualMemory.SavedState.Parts

/-!
# Saved memories

* `Ram.toDocument`, `Rom.toDocument`, `Flash.toDocument` and their readers.
* `Machine.save`, `Machine.restore?`: RAM, flash, interrupt requests and buzzer together. The
  processor and the timers are not part of a saved state.
-/

namespace VisualMemory

namespace Ram

/-- The bytes of the cells that an indexing names. -/
def slice (ram : Ram) {n : Nat} (cells : Fin n → Cell) : Vector UInt8 n :=
  Vector.ofFn fun i => ram.cell (cells i)

/-- The RAM's saved form: each bank by itself, and the latches. -/
def toDocument (ram : Ram) : Document :=
  let bank {n : Nat} (cells : Fin n → Cell) : Document := .ofVector .ofByte (ram.slice cells)
  .record [
    ("main", .list (List.ofFn fun b => bank (.main b))),
    ("sfr", .ofVector .ofByte ram.registers),
    ("xram", .list (List.ofFn fun b => bank (.xram b))),
    ("counter_latches", .ofVector (fun latch => latch.elim .null .ofByte) ram.latches)]

/-- The RAM with a saved form; banks of other lengths are refused. -/
def ofDocument? (d : Document) : Option Ram := do
  let [some (.list [main0, main1]), some registers, some (.list [xram0, xram1, xram2]),
      some latches] ← d.members? ["main", "sfr", "xram", "counter_latches"] | none
  let main0 ← main0.vector? 256 Document.byte?
  let main1 ← main1.vector? 256 Document.byte?
  let registers ← registers.vector? 128 Document.byte?
  let xram0 ← xram0.vector? 128 Document.byte?
  let xram1 ← xram1.vector? 128 Document.byte?
  let xram2 ← xram2.vector? 128 Document.byte?
  return {
    main := main0 ++ main1
    registers
    xram := (xram0 ++ xram1) ++ xram2
    latches := ← latches.vector? 128 (Document.optional? Document.byte?) }

end Ram

namespace Rom

def toDocument (rom : Rom) : Document :=
  .record [("data", .list (rom.bytes.toList.map .ofByte))]

/-- The ROM with a saved form. Images that are longer than the address space are refused: no write
makes one, although a list of any length is a saved form of the type. -/
def ofDocument? (d : Document) : Option Rom := do
  let [some (.list bytes)] ← d.members? ["data"] | none
  let bytes ← bytes.mapM Document.byte?
  if h : bytes.toArray.size ≤ 0x10000 then some ⟨bytes.toArray, h⟩ else none

end Rom

namespace Flash

def toDocument (flash : Flash) : Document :=
  .record [("data", .ofVector .ofByte flash.bytes)]

/-- The chip with a saved form. Lists of other lengths are refused: every write makes one of the
chip's size, although a list of any length is a saved form of the type. -/
def ofDocument? (d : Document) : Option Flash := do
  let [some bytes] ← d.members? ["data"] | none
  return ⟨← bytes.vector? 0x20000 Document.byte?⟩

end Flash

namespace Machine

def save (m : Machine) : Document :=
  .record [("ram", m.ram.toDocument), ("flash", m.flash.toDocument),
    ("interrupts", m.interrupts.toDocument), ("buzzer", m.buzzer.toDocument)]

/-- The machine with the parts of a saved form; processor and timers go on as they are. -/
def restore? (m : Machine) (d : Document) : Option Machine := do
  let [some ram, some flash, some interrupts, some buzzer] ←
    d.members? ["ram", "flash", "interrupts", "buzzer"] | none
  return { m with
    ram := ← Ram.ofDocument? ram
    flash := ← Flash.ofDocument? flash
    interrupts := ← Interrupt.Controller.ofDocument? interrupts
    buzzer := ← Buzzer.ofDocument? buzzer }

end Machine

end VisualMemory
