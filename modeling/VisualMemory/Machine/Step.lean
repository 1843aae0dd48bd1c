import VisualMemory.Machine.Execute

/-!
# Running the machine

* `Machine.decode`: the note of an instruction about to be executed.
* `Machine.processInstruction`: one instruction, without the passing of time.
* `Machine.stepTimer0`, `Machine.stepTimer1`: one cycle of a timer.
* `Machine.advance`: one instruction and the cycles that it takes.
* `Machine.step`: the same, and a poll for interrupts.
* `Machine.runFor`, `Machine.runSteps`: many steps, by cycles or by count.
-/

namespace VisualMemory

/-- What came of an attempt to execute an instruction. -/
inductive Progress where
  | executed (cycles : Nat)
  /-- The processor is halted; nothing was fetched. -/
  | halted
  deriving DecidableEq, Repr

def Progress.cycles : Progress → Nat
  | executed cycles => cycles
  | halted => 1

namespace Machine

/-! ## One instruction -/

/-- The machine with the opcode byte before the program counter noted. -/
def noteDecoded (m : Machine) (raw : UInt8) : Machine :=
  m.note (.decoded m.bank (m.cpu.pc - 1) raw)

/-- The machine with a waiting bank switch made. -/
def commitBank (m : Machine) : Machine :=
  if m.cpu.program.isPending then
    let m := { m with cpu := { m.cpu with program := m.cpu.program.commit } }
    m.note (.bankSwitched m.bank)
  else m

/-- The machine with an instruction counted and the bank that it selected noted. -/
def retire (m : Machine) : Machine :=
  let selected := Bank.ofByte (m.ram.readRaw Register.ext.toNat)
  { m with
    cpu := { m.cpu with
      instructions := m.cpu.instructions + 1
      program := m.cpu.program.latch selected } }

/-- One instruction, unless the processor is halted; it is noted if `debug` says so. -/
def processInstruction (m : Machine) (debug : Bool) : Machine × Progress :=
  let m := { m with cpu := { m.cpu with runState := .started } }
  if m.isHalted then (m, .halted)
  else
    let (m, raw) := m.commitBank.fetch
    let m := if debug then m.noteDecoded raw else m
    ((m.execute raw).retire, .executed (Instruction.decode raw).cycles)

/-! ## Time -/

/-- The machine after a timer's signal. -/
def hear (m : Machine) (layout : Timer.Layout) (s : Timer.Signal) : Machine :=
  match s with
  | .period value =>
    let m := if value = m.buzzer.period then m else m.note (.periodChanged value)
    { m with buzzer := { m.buzzer with period := value } }
  | .sound on => { m with buzzer := { m.buzzer with enabled := on } }
  | .lowOverflow => m.note (.lowOverflow layout.control)
  | .highOverflow => m.note (.highOverflow layout.control)

@[inline] def takeTimer0 (m : Machine) (o : Timer.Outcome) : Machine :=
  o.signals.foldl (·.hear o.timer.layout)
    { m with timer0 := o.timer, ram := o.ram, interrupts := o.interrupts }

@[inline] def takeTimer1 (m : Machine) (o : Timer.Outcome) : Machine :=
  o.signals.foldl (·.hear o.timer.layout)
    { m with timer1 := o.timer, ram := o.ram, interrupts := o.interrupts }

def stepTimer0 (m : Machine) : Machine :=
  m.takeTimer0 (m.timer0.step m.ram m.interrupts)

def stepTimer1 (m : Machine) : Machine :=
  m.takeTimer1 (m.timer1.step m.ram m.interrupts)

/-- One clock of timer 0, past its divider. -/
def tickTimer0 (m : Machine) : Machine :=
  m.takeTimer0 (m.timer0.tick m.ram m.interrupts)

def tickTimer1 (m : Machine) : Machine :=
  m.takeTimer1 (m.timer1.tick m.ram m.interrupts)

/-- The given number of cycles of both timers, side by side. -/
def elapse (m : Machine) : Nat → Machine
  | 0 => m
  | cycles + 1 => m.stepTimer0.stepTimer1.elapse cycles

/-- One instruction and the cycles that it takes; and those cycles. -/
def advance (m : Machine) : Machine × Nat :=
  let (m, progress) := m.processInstruction m.debug
  (m.elapse progress.cycles, progress.cycles)

/-- One instruction, the cycles that it takes, and a poll for interrupts; and those cycles. -/
def step (m : Machine) : Machine × Nat :=
  let (m, cycles) := m.advance
  (m.poll.1, cycles)

theorem step_cycles_pos (m : Machine) : 0 < m.step.2 := by
  simp only [step, advance, processInstruction]
  split
  · exact Nat.one_pos
  · exact Instruction.cycles_pos _

/-! ## Runs -/

/-- Steps until at least `cycles` more have passed, with those passed in all. -/
def runOn (m : Machine) (elapsed cycles : Nat) : Machine × Nat :=
  if cycles = 0 then (m, elapsed)
  else
    match h : m.step with
    | (next, k) =>
      have : 0 < k := by simpa [h] using m.step_cycles_pos
      next.runOn (elapsed + k) (cycles - k)
termination_by cycles
decreasing_by omega

/-- Steps until at least `cycles` have passed, and how many did. -/
def runFor (m : Machine) (cycles : Nat) : Machine × Nat :=
  m.runOn 0 cycles

/-- The given number of steps, with the cycles that have passed in all. -/
def runSteps (m : Machine) (elapsed : Nat) : Nat → Machine × Nat
  | 0 => (m, elapsed)
  | steps + 1 =>
    let (m, k) := m.step
    m.runSteps (elapsed + k) steps

end Machine

end VisualMemory
