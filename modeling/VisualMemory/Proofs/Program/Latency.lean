import VisualMemory.Proofs.Act
import VisualMemory.Proofs.Interrupt.Poll
import VisualMemory.Proofs.Program.Reading

/-!
# A bank switch takes hold one instruction late

The bank of an instruction is the one that the select register named when the instruction before it
retired, whatever was written to that register since. To say so about whole runs, a run is given the
list of the banks that were chosen in its course: one by every instruction that retires, one by
every reset, and none by anything else.

* `Machine.selectedBank`: the bank that the select register names, behind the latch.
* `Act.choices`, `Machine.choices`: the banks chosen by an act and by a run, in order.
* `Machine.Chooses`: the bank of the next fetch is the last that was chosen; one lemma for each part
  of a step, and from them `chooses_step`, `Act.chooses`, `chooses_runActs`.
* `bank_switch_latency`: where an instruction of a run that starts with a reset is read from.
-/

namespace VisualMemory

open Interrupt (Source)

theorem BankLatch.latest_latch (l : BankLatch) (selected : Bank) :
    (l.latch selected).latest = selected := by
  unfold latest latch
  split
  · exact (‹selected = l.current›).symm
  · rfl

/-! ## The banks that a run chooses -/

namespace Machine

def selectedBank (m : Machine) : Bank :=
  .ofByte (m.ram.readRaw Register.ext.toNat)

/-- The choice of one instruction: the bank that is selected when it retires. -/
def instructionChoices (m : Machine) (noted : Bool) : List Bank :=
  if m.isHalted then [] else [(m.processInstruction noted).1.selectedBank]

/-- The choice of a poll: only a reset makes one. -/
def pollChoices (m : Machine) : List Bank :=
  if m.poll.2 = some .reset then [m.initialBank] else []

def stepChoices (m : Machine) : List Bank :=
  m.instructionChoices m.debug ++ m.advance.1.pollChoices

def stepsChoices (m : Machine) : Nat → List Bank
  | 0 => []
  | steps + 1 => m.stepChoices ++ m.step.1.stepsChoices steps

end Machine

def Act.choices (m : Machine) : Act → List Bank
  | step => m.stepChoices
  | runFor cycles => m.stepsChoices (m.stepsFor cycles.toNat)
  | instruction noted => m.instructionChoices noted
  | poll => m.pollChoices
  | reset | directBoot _ => [m.initialBank]
  | _ => []

namespace Machine

def choices (m : Machine) : List Act → List Bank
  | [] => []
  | a :: acts => a.choices m ++ (a.run m).choices acts

/-! ## The latch keeps the last choice -/

/-- From `m` to `n` these banks were chosen, and the last of them is that of the next fetch. -/
def Chooses (chosen : List Bank) (m n : Machine) : Prop :=
  n.cpu.program.latest = chosen.getLast?.getD m.cpu.program.latest

namespace Chooses

variable {m n k : Machine} {chosen chosen' : List Bank}

theorem trans (h : Chooses chosen m n) (h' : Chooses chosen' n k) :
    Chooses (chosen ++ chosen') m k := by
  rw [Chooses, List.getLast?_append, h', h]
  cases chosen'.getLast? with
  | none => rfl
  | some b => rfl

theorem of_eq (h : n.cpu.program = m.cpu.program) : Chooses [] m n :=
  congrArg BankLatch.latest h

theorem of_cpu_eq (h : n.cpu = m.cpu) : Chooses [] m n :=
  of_eq (congrArg Cpu.program h)

end Chooses

theorem chooses_reset (m : Machine) : Chooses [m.initialBank] m m.reset :=
  rfl

theorem program_execute (m : Machine) (raw : UInt8) :
    (m.execute raw).cpu.program = m.cpu.program := by
  unfold execute
  by_cases h : Instruction.decode raw = .reti
  · rw [h]
    show m.leave.cpu.program = m.cpu.program
    cases hs : m.cpu.services with
    | nil => rw [leave_nil hs]
    | cons r rest => rw [leave_cons hs]
  · rw [(Keeps.perform m raw h).cpu]

/-- An instruction that retires chooses, from the RAM that it leaves behind. -/
theorem chooses_processInstruction (m : Machine) (noted : Bool) :
    Chooses (m.instructionChoices noted) m (m.processInstruction noted).1 := by
  cases h : m.isHalted with
  | true =>
    rw [instructionChoices, h, processInstruction_of_halted noted h]
    exact .of_eq rfl
  | false =>
    rw [instructionChoices, h, processInstruction_of_not_halted noted h]
    exact BankLatch.latest_latch ..

/-! ## Polls and steps -/

theorem chooses_poll (m : Machine) : Chooses m.pollChoices m m.poll.1 := by
  rcases poll_cases m with ⟨-, hp⟩ | ⟨s, -, hp⟩
  · rw [pollChoices, hp]
    exact .of_eq rfl
  · rw [pollChoices, hp]
    by_cases hr : s = .reset
    · rw [hr, serve_reset]
      exact chooses_reset m
    · have hnone : ¬ some s = some Source.reset := fun h => hr (Option.some.inj h)
      rw [if_neg hnone, serve_of_ne hr]
      exact .of_eq rfl

theorem chooses_step (m : Machine) : Chooses m.stepChoices m m.step.1 := by
  have hrun : Chooses (m.instructionChoices m.debug ++ []) m m.advance.1 :=
    (chooses_processInstruction m m.debug).trans (.of_cpu_eq (passes_elapse ..).cpu)
  rw [List.append_nil] at hrun
  exact hrun.trans (chooses_poll _)

theorem chooses_runSteps (m : Machine) (elapsed steps : Nat) :
    Chooses (m.stepsChoices steps) m (m.runSteps elapsed steps).1 := by
  induction steps generalizing m elapsed with
  | zero => exact .of_eq rfl
  | succ steps ih => exact (chooses_step m).trans (ih _ _)

end Machine

/-! ## Acts -/

open Machine in
theorem Act.chooses (m : Machine) (a : Act) : Chooses (a.choices m) m (a.run m) := by
  cases a with
  | step => exact chooses_step m
  | runFor cycles =>
    show Chooses _ m (m.runOn 0 cycles.toNat).1
    rw [runOn_eq_runSteps]
    exact chooses_runSteps ..
  | instruction noted => exact chooses_processInstruction m noted
  | execute raw => exact .of_eq (program_execute m raw)
  | poll => exact chooses_poll m
  | stepTimer0 => exact .of_cpu_eq (passes_takeTimer0 m _).cpu
  | stepTimer1 => exact .of_cpu_eq (passes_takeTimer1 m _).cpu
  | tickTimer0 => exact .of_cpu_eq (passes_takeTimer0 m _).cpu
  | tickTimer1 => exact .of_cpu_eq (passes_takeTimer1 m _).cpu
  | reset | directBoot => exact chooses_reset m
  | writeProgram address value =>
    rw [run, writeProgram_eq]
    exact .of_eq rfl
  | _ => exact .of_eq rfl

namespace Machine

theorem chooses_runActs (m : Machine) (acts : List Act) :
    Chooses (m.choices acts) m (m.runActs acts) := by
  induction acts generalizing m with
  | nil => exact .of_eq rfl
  | cons a acts ih => exact (Act.chooses m a).trans (ih _)

end Machine

/-- **A bank switch takes hold exactly one instruction late.** Take any run that starts with a
reset. An instruction at its end reads its opcode, its operands and its table byte, and no other
byte, from the bank that was chosen last: by the instruction before it when that retired, or by a
reset, which chooses the bank that the processor starts in. If the processor is halted, nothing is
fetched, and all that changes is that the processor has started. -/
theorem bank_switch_latency (m : Machine) (acts : List Act) (noted : Bool) :
    let n := m.reset.runActs acts
    let program := n.programOf ((m.reset.choices acts).getLast?.getD m.initialBank)
    let i := Instruction.decode (program n.cpu.pc)
    n.processInstruction noted =
      (if n.isHalted then (n.start, .halted) else (Reading.instruction program n noted).value) ∧
    (Reading.instruction program n noted).addresses =
      span n.cpu.pc i.size.toNat ++ Reading.tableAddresses n i ∧
    ∀ bytes, (∀ a ∈ (Reading.instruction program n noted).addresses, bytes a = program a) →
      Reading.instruction bytes n noted = Reading.instruction program n noted := by
  intro n program i
  refine ⟨?_, Reading.addresses_instruction .., Reading.Local.instruction n noted _⟩
  have hlatest : n.cpu.program.latest = (m.reset.choices acts).getLast?.getD m.initialBank :=
    Machine.chooses_runActs m.reset acts
  cases h : n.isHalted with
  | true => exact Machine.processInstruction_of_halted noted h
  | false =>
    have hvalue := Reading.value_instruction noted h
    rw [hlatest] at hvalue
    exact hvalue

/-- A firmware that selects flash and then branches to itself; flash is empty. -/
def switchingFirmware : Machine :=
  .cold #[0x23, 0x0D, 0x01, 0x01, 0xFE] (by decide)

/-- The instruction behind the switch comes from flash, though ROM is selected again before it is
fetched: it is the instruction that does nothing, and not the branch, which takes two cycles. -/
theorem bank_switch_latency_despite_write :
    ((switchingFirmware.reset.runActs [.step, .writeRam 0x10D 0]).processInstruction false).2 =
      .executed 1 := by
  have h := (bank_switch_latency switchingFirmware [.step, .writeRam 0x10D 0] false).1
  exact (congrArg Prod.snd h).trans (by decide +kernel)

end VisualMemory
