import VisualMemory.Machine.Basic

/-!
# Reset and assembly

* `Machine.reset`: the cold reset. Memories survive; registers and interrupt state do not.
* `Machine.directBoot`: a reset, then straight into the user's program.
* `Config`, `Machine.boot`: a machine from images, or why there is none.
-/

namespace VisualMemory

namespace Machine

def initialSp : UInt8 := 0x7F

def initialBank (m : Machine) : Bank :=
  if m.cpu.direct then .flash else .rom

/-- The cold reset. -/
def reset (m : Machine) : Machine :=
  let bank := m.initialBank
  let ram := m.ram.resetRegisters.write Register.sp.toNat initialSp
  { m with
    ram := ram.write Register.ext.toNat bank.toByte
    interrupts := {}
    cpu :=
      { program := { current := bank }
        frequency := m.cpu.frequency
        direct := m.cpu.direct } }

/-- A cold reset, then the user's program from `entry` on. -/
def directBoot (m : Machine) (entry : UInt16) : Machine :=
  let m := m.reset.jump entry
  m.note (.directBoot entry m.bank)

end Machine

/-- How a machine is to start. -/
structure Config where
  /-- The processor's clock in Hz. -/
  frequency : Float := 879236
  /-- Skip the firmware. -/
  direct : Bool := false
  /-- Where the user's program starts when the firmware is skipped. -/
  entry : UInt16 := 0

/-- The machine with the given firmware and flash images, in its cold reset state. Of several
faults the first is reported, in the order: nothing to start directly, ROM image, flash image, no
firmware. -/
def Machine.boot (bios flash : Array UInt8) (config : Config) (journal : Journal) :
    Except BootError Machine := do
  if config.direct && flash.isEmpty then throw .missingFlash
  let rom ← Rom.ofImage bios
  let flash ← Flash.ofImage flash
  if !config.direct && rom.size == 0 then throw .missingBios
  let cpu : Cpu := { frequency := config.frequency, direct := config.direct }
  let m := Machine.reset { cpu, rom, flash, journal }
  return if config.direct then m.directBoot config.entry else m

end VisualMemory
