import VisualMemory.Buzzer
import VisualMemory.Flash
import VisualMemory.Interrupt.Service
import VisualMemory.Rom
import VisualMemory.Timer.Basic

/-!
# The machine

The processor, the two timers, the memories they share, the interrupt controller and the buzzer.

* `Cpu`: what the processor keeps outside of RAM.
* `Machine`: everything.
* `Machine.register`, `Machine.setRegister` and their kin: RAM and flags as instructions see them.
* `Machine.readProgram`, `Machine.fetch`: the program memory in use.
* `Machine.push`, `Machine.pop`: the stack.
-/

namespace VisualMemory

/-- Whether the processor has begun to execute since its reset. -/
inductive RunState where
  | stopped
  | started
  deriving DecidableEq, Repr

/-- What the processor keeps outside of RAM. -/
structure Cpu where
  /-- The address of the next program byte. -/
  pc : UInt16 := 0
  program : BankLatch := {}
  runState : RunState := .stopped
  /-- The clock in Hz. -/
  frequency : Float := 879236
  /-- The level of the service routine that is running. -/
  level : Interrupt.Level := .idle
  /-- The service routines that have been entered, innermost first. -/
  services : List Interrupt.Service := []
  /-- The accepted sources that wait for service, oldest first. -/
  queue : List Interrupt.Source := []
  /-- The instructions executed since the reset. -/
  instructions : UInt64 := 0
  /-- The processor starts in the user's program instead of the firmware. -/
  direct : Bool := false

/-- A handheld. -/
structure Machine where
  cpu : Cpu := {}
  timer0 : Timer := .zero
  timer1 : Timer := .one
  ram : Ram := {}
  rom : Rom := {}
  flash : Flash
  interrupts : Interrupt.Controller := {}
  buzzer : Buzzer := {}
  /-- Steps note every instruction. -/
  debug : Bool := false
  journal : Journal := {}

namespace Machine

def note (m : Machine) (e : Event) : Machine :=
  { m with journal := m.journal.note e }

/-! ## Registers -/

/-- The byte at a RAM address as an instruction reads it. -/
def register (m : Machine) (address : UInt16) : UInt8 :=
  m.ram.read address.toNat

def setRegister (m : Machine) (address : UInt16) (value : UInt8) : Machine :=
  { m with ram := m.ram.write address.toNat value }

def acc (m : Machine) : UInt8 :=
  m.register Register.acc

def setAcc (m : Machine) (value : UInt8) : Machine :=
  m.setRegister Register.acc value

def psw (m : Machine) : Psw :=
  ⟨m.register Register.psw⟩

def setPsw (m : Machine) (p : Psw) : Machine :=
  m.setRegister Register.psw p.byte

def flag (m : Machine) (f : Flag) : Bool :=
  m.psw.flag f

def setFlag (m : Machine) (f : Flag) (on : Bool) : Machine :=
  m.setPsw (m.psw.setFlag f on)

/-- Whether a program has halted the processor. -/
def isHalted (m : Machine) : Bool :=
  (m.register Register.pcon).bit 0

def enable (m : Machine) : Interrupt.Enable :=
  ⟨m.register Register.ie⟩

/-! ## Program memory -/

def jump (m : Machine) (pc : UInt16) : Machine :=
  { m with cpu := { m.cpu with pc } }

def bank (m : Machine) : Bank :=
  m.cpu.program.current

/-- The byte at an address of the program memory in use. -/
def readProgram (m : Machine) (address : UInt16) : UInt8 :=
  match m.bank with
  | .rom => m.rom.read address.toNat
  | .flash => m.flash.readBanked 0 address

/-- The machine after a write to the program memory in use. -/
def writeProgram (m : Machine) (address : UInt16) (value : UInt8) : Machine :=
  match m.bank with
  | .rom =>
    let (rom, event) := m.rom.write address.toNat value
    { m with rom, journal := m.journal.note event }
  | .flash => { m with flash := m.flash.writeBanked 0 address value }

def fetch (m : Machine) : Machine × UInt8 :=
  let byte := m.readProgram m.cpu.pc
  (m.jump (m.cpu.pc + 1), byte)

/-! ## Stack -/

/-- The machine after a byte has been pushed: the pointer moves up first. -/
def push (m : Machine) (value : UInt8) : Machine :=
  let sp := m.ram.readRaw Register.sp.toNat + 1
  { m with ram := (m.ram.writeStack sp value).write Register.sp.toNat sp }

/-- The byte on top of the stack, taken off it. -/
def pop (m : Machine) : Machine × UInt8 :=
  let sp := m.ram.readRaw Register.sp.toNat
  let value := m.ram.readStack sp
  ({ m with ram := m.ram.write Register.sp.toNat (sp - 1) }, value)

/-- The machine after an address has been pushed, low byte first. -/
def pushAddress (m : Machine) (address : UInt16) : Machine :=
  (m.push address.lowByte).push address.highByte

/-- The address on top of the stack, taken off it. -/
def popAddress (m : Machine) : Machine × UInt16 :=
  let (m, high) := m.pop
  let (m, low) := m.pop
  (m, .ofBytes high low)

end Machine

end VisualMemory
