import VisualMemory.Bank
import VisualMemory.Instruction.Text
import VisualMemory.Interrupt.Source
import VisualMemory.Text.Escape

/-!
# Events and their journal

What a machine and a session with it do is noted as events. An event has a severity, comes from a
part of the program and has a wording; the journal keeps the events that are severe enough.

* `Event.severity`, `Event.origin`, `Event.message`: the three by event.
* `Journal.note`: the journal with one more event, if it is let in.
-/

namespace VisualMemory

/-- How much an event matters. -/
inductive Severity where
  | error
  | warn
  | info
  | debug
  | trace
  deriving DecidableEq, Repr

namespace Severity

def rank : Severity → Nat
  | error => 1
  | warn => 2
  | info => 3
  | debug => 4
  | trace => 5

def name : Severity → String
  | error => "ERROR"
  | warn => "WARN"
  | info => "INFO"
  | debug => "DEBUG"
  | trace => "TRACE"

end Severity

/-- Something worth noting. -/
inductive Event where
  /-- A session starts to load a file. -/
  | loading (file : String)
  /-- A file cannot be loaded. -/
  | unreadable (file reason : String)
  /-- A machine cannot be assembled. -/
  | refused (reason : String)
  /-- A session's run is over. -/
  | finished (instructions cycles : Nat) (pc : UInt16)
  /-- Sources that still ask for service at the end of a run. -/
  | stillPending (sources : List Interrupt.Source)
  /-- The buzzer sounds at the end of a run. -/
  | sounding (hertz : String)
  /-- A boot straight into the user's program. -/
  | directBoot (entry : UInt16) (bank : Bank)
  /-- A switch of the program bank takes hold. -/
  | bankSwitched (bank : Bank)
  /-- An opcode byte is about to be executed. -/
  | decoded (bank : Bank) (address : UInt16) (raw : UInt8)
  /-- A reset interrupt is served. -/
  | resetRequested
  /-- A service routine is entered. -/
  | entered (source : Interrupt.Source) (vector returnPc : UInt16)
  /-- A service routine is left. -/
  | left (source : Interrupt.Source)
  /-- The low half of the timer with this control register overflows. -/
  | lowOverflow (control : UInt16)
  /-- The high half of the timer with this control register overflows. -/
  | highOverflow (control : UInt16)
  /-- The buzzer gets another period. -/
  | periodChanged (period : UInt8)
  /-- A program tries to write to ROM. -/
  | romWriteIgnored (address : Nat) (value : UInt8)
  deriving DecidableEq, Repr

namespace Event

def severity : Event → Severity
  | unreadable .. | refused .. => .error
  | romWriteIgnored .. => .warn
  | loading .. | finished .. | stillPending .. | sounding .. | directBoot .. => .info
  | bankSwitched .. | decoded .. | resetRequested | entered .. | left .. => .debug
  | lowOverflow .. | highOverflow .. | periodChanged .. => .trace

def origin : Event → String
  | loading .. | unreadable .. | refused .. | finished .. | stillPending .. | sounding .. => "vmu"
  | directBoot .. | bankSwitched .. | decoded .. => "emu::cpu::lc86k"
  | resetRequested | entered .. | left .. => "emu::cpu::interrupts"
  | lowOverflow .. | highOverflow .. => "emu::cpu::hardware::timers"
  | periodChanged .. => "emu::cpu::hardware::sound"
  | romWriteIgnored .. => "emu::memory::rom"

def message : Event → String
  | loading file => s!"loading {file}"
  | unreadable file reason => s!"{file}: {reason}"
  | refused reason => reason
  | finished instructions cycles pc =>
    s!"ran {instructions} instructions in {cycles} cycles, PC = {Hex.word pc}"
  | stillPending sources =>
    "interrupts still pending: [" ++ ", ".intercalate (sources.map (·.name)) ++ "]"
  | sounding hertz => s!"buzzer on at {hertz} Hz"
  | directBoot entry bank => s!"HLE boot at {Hex.word entry} from {bank.name}"
  | bankSwitched bank => s!"fetching from {bank.name}"
  | decoded bank address raw =>
    s!"{bank.name} {Hex.word address}: {Instruction.opcodeText raw}"
  | resetRequested => "reset requested"
  | entered source vector returnPc =>
    s!"entering {source.name} at {Hex.word vector}, return to {Hex.word returnPc}"
  | left source => s!"leaving {source.name}"
  | lowOverflow control => s!"timer at {Hex.text 3 control.toNat}: low overflow"
  | highOverflow control => s!"timer at {Hex.text 3 control.toNat}: high overflow"
  | periodChanged period => s!"buzzer period {Hex.byte period}"
  | romWriteIgnored address value =>
    s!"ignoring write of {Hex.byte value} to ROM address {Hex.text 4 address}"

/-- The event as a line without its origin. -/
def line (e : Event) : String :=
  e.severity.name ++ " " ++ e.message

/-- The event as a line with its origin, safe to be shown on a terminal. -/
def fullLine (e : Event) : String :=
  e.severity.name ++ " " ++ e.origin ++ ": " ++ Text.escape e.message

end Event

/-- The events noted so far, oldest first, of those at the threshold or more severe. Without a
threshold nothing is noted. -/
structure Journal where
  threshold : Option Severity := none
  events : Array Event := #[]
  deriving DecidableEq, Repr

namespace Journal

def admits (j : Journal) (s : Severity) : Bool :=
  match j.threshold with
  | some t => s.rank ≤ t.rank
  | none => false

/-- The journal with one more event, if it is let in. -/
def note (j : Journal) (e : Event) : Journal :=
  if j.admits e.severity then { j with events := j.events.push e } else j

end Journal

end VisualMemory
