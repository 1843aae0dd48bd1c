import VisualMemory.Proofs.Checked.Execute
import VisualMemory.Proofs.Checked.Timer

/-!
# Checked runs

A whole machine with all its checks, under any acts of a front end. From a boot on no check fails,
so the run goes on, and it goes where the machine without checks goes.

* `Checked.step`, `Checked.runOn`, `Checked.act`, `Checked.runActs`: steps, runs and acts.
* `Act.executed`, `Machine.executed`: how many instructions acts execute. Their count is the one
  thing that grows with the length of a run.
* `step_eq`, `runOn_eq`, `act_eq`, `runActs_eq`: no check fails on the way.
* `run_never_fails`: none ever does after a boot.
-/

namespace VisualMemory

open Interrupt (Controller Enable Service Source)

namespace Checked

/-! ## Reset and service -/

def reset (m : Machine) : Checked Machine := do
  let bank := m.initialBank
  let ram ← write m.ram.resetRegisters Register.sp.toNat Machine.initialSp
  return { m with
    ram := ← write ram Register.ext.toNat bank.toByte
    interrupts := {}
    cpu :=
      { program := { current := bank }
        frequency := m.cpu.frequency
        direct := m.cpu.direct } }

def directBoot (m : Machine) (entry : UInt16) : Checked Machine := do
  let m := (← reset m).jump entry
  return m.note (.directBoot entry m.bank)

def enable (m : Machine) : Checked Enable := do
  return ⟨← register m Register.ie⟩

def select (test : Source → Checked Bool) : List Source → Checked (List Source)
  | [] => return []
  | s :: sources => do
    if ← test s then return s :: (← select test sources) else select test sources

def find? (test : Source → Checked Bool) : List Source → Checked (Option Source)
  | [] => return none
  | s :: sources => do
    if ← test s then return some s else find? test sources

def isAcceptable (m : Machine) (e : Enable) (s : Source) : Checked Bool := do
  return (← isPending m.interrupts s) &&
    ((← allows e s) && !m.cpu.queue.contains s && !m.isServing s)

def accept (m : Machine) : Checked Machine := do
  let e ← enable m
  let accepted ← select (isAcceptable m e) Source.all
  return { m with
    interrupts := ← accepted.foldlM lower m.interrupts
    cpu := { m.cpu with queue := m.cpu.queue ++ accepted } }

def canServe (m : Machine) (e : Enable) (s : Source) : Checked Bool := do
  return (← allows e s) && m.cpu.level < s.level

def next? (m : Machine) : Checked (Option Source) := do
  find? (canServe m (← enable m)) m.cpu.queue

def enter (m : Machine) (s : Source) : Checked Machine := do
  let returnPc := m.cpu.pc
  let m ← host.pushAddress m returnPc
  let service : Service :=
    { source := s, returnPc, psw := ← host.psw m, previousLevel := m.cpu.level }
  let m := { m with cpu := { m.cpu with services := service :: m.cpu.services, level := s.level } }
  let m ← setRegister m Register.pcon (← setByteBit (← register m Register.pcon) 0 false)
  return (m.jump s.vector).note (.entered s s.vector returnPc)

def serve (m : Machine) (s : Source) : Checked Machine :=
  if s = .reset then reset (m.note .resetRequested) else enter m s

def poll (m : Machine) : Checked (Machine × Option Source) := do
  let m ← accept m
  match ← next? m with
  | some s => return (← serve (m.dequeue s) s, some s)
  | none => return (m, none)

section

variable (m : Machine)

theorem reset_eq : reset m = .ok m.reset := by
  simp only [reset, write_eq, ok_bind, pure_eq_ok]
  rfl

theorem directBoot_eq (entry : UInt16) : directBoot m entry = .ok (m.directBoot entry) := by
  rw [directBoot, reset_eq]
  rfl

theorem enable_eq : enable m = .ok m.enable := by
  rw [enable, register_eq]
  rfl

theorem select_eq {test : Source → Checked Bool} {p : Source → Bool}
    (h : ∀ s, test s = .ok (p s)) (sources : List Source) :
    select test sources = .ok (sources.filter p) := by
  induction sources with
  | nil => rfl
  | cons s sources ih =>
    rw [select, h, ok_bind, ih, List.filter_cons]
    cases p s <;> rfl

theorem find?_eq {test : Source → Checked Bool} {p : Source → Bool}
    (h : ∀ s, test s = .ok (p s)) (sources : List Source) :
    find? test sources = .ok (sources.find? p) := by
  induction sources with
  | nil => rfl
  | cons s sources ih =>
    rw [find?, h, ok_bind, ih, List.find?_cons]
    cases p s <;> rfl

theorem accept_eq : accept m = .ok m.accept := by
  have htest (s : Source) : isAcceptable m m.enable s =
      .ok (m.interrupts.isPending s &&
        (m.enable.allows s && !m.cpu.queue.contains s && !m.isServing s)) := by
    rw [isAcceptable, isPending_eq, ok_bind, allows_eq]
    rfl
  have hselect : select (isAcceptable m m.enable) Source.all = .ok m.acceptable := by
    rw [select_eq htest, Machine.acceptable, Controller.pending, List.filter_filter]
    simp only [Bool.and_comm]
  rw [accept, enable_eq, ok_bind, hselect, ok_bind, foldlM_eq lower_eq]
  rfl

theorem next?_eq : next? m = .ok m.next? := by
  have htest (s : Source) : canServe m m.enable s = .ok (m.canServe s) := by
    rw [canServe, allows_eq]
    rfl
  rw [next?, enable_eq, ok_bind, find?_eq htest]
  rfl

theorem enter_eq (s : Source) : enter m s = .ok (m.enter s) := by
  simp only [enter, isPlain_host.pushAddress, isPlain_host.psw, register_eq, setRegister_eq,
    setByteBit_eq _ (by decide : (0 : UInt8) < 8), ok_bind, pure_eq_ok]
  rfl

theorem serve_eq (s : Source) : serve m s = .ok (m.serve s) := by
  unfold serve Machine.serve
  split
  · exact reset_eq _
  · exact enter_eq m s

/-- **No poll can fail.** -/
theorem poll_eq : poll m = .ok m.poll := by
  rw [poll, accept_eq, ok_bind, next?_eq, ok_bind]
  cases hn : m.accept.next? with
  | none => rw [Machine.poll_of_none hn]; rfl
  | some s =>
    rw [Machine.poll_of_some hn]
    simp only [serve_eq, ok_bind, pure_eq_ok]

end

/-! ## Steps -/

def isHalted (m : Machine) : Checked Bool := do
  byteBit (← register m Register.pcon) 0

def retire (m : Machine) : Checked Machine := do
  let instructions ← add m.cpu.instructions 1
  let selected := Bank.ofByte (← readRaw m.ram Register.ext.toNat)
  return { m with
    cpu := { m.cpu with instructions, program := m.cpu.program.latch selected } }

def processInstruction (m : Machine) (debug : Bool) : Checked (Machine × Progress) := do
  let m := m.start
  if ← isHalted m then return (m, .halted)
  else
    let (m, raw) ← host.fetch m.commitBank
    let m := if debug then m.noteDecoded raw else m
    return (← retire (← execute m raw), .executed (Instruction.decode raw).cycles)

def stepTimer0 (m : Machine) : Checked Machine := do
  return m.takeTimer0 (← stepTimer m.timer0 m.ram m.interrupts)

def stepTimer1 (m : Machine) : Checked Machine := do
  return m.takeTimer1 (← stepTimer m.timer1 m.ram m.interrupts)

def tickTimer0 (m : Machine) : Checked Machine := do
  return m.takeTimer0 (← tickTimer m.timer0 m.ram m.interrupts)

def tickTimer1 (m : Machine) : Checked Machine := do
  return m.takeTimer1 (← tickTimer m.timer1 m.ram m.interrupts)

def elapse (m : Machine) : Nat → Checked Machine
  | 0 => return m
  | cycles + 1 => do elapse (← stepTimer1 (← stepTimer0 m)) cycles

def step (m : Machine) : Checked (Machine × Nat) := do
  let (m, progress) ← processInstruction m m.debug
  let (m, _) ← poll (← elapse m progress.cycles)
  return (m, progress.cycles)

/-- Steps until at least `cycles` cycles have passed, with those passed in all. A step without
cycles would hang the loop and counts as a fault. -/
def runOn (m : Machine) (elapsed cycles : UInt64) : Checked (Machine × UInt64) := do
  if elapsed < cycles then
    let (m, k) ← step m
    let next ← add elapsed (UInt64.ofNat k)
    if elapsed < next then runOn m next cycles else throw .assertion
  else return (m, elapsed)
termination_by cycles.toNat - elapsed.toNat
decreasing_by
  rename_i h h'
  have hlt := UInt64.lt_iff_toNat_lt.mp h
  have hlt' := UInt64.lt_iff_toNat_lt.mp h'
  omega

section

variable {m : Machine}

theorem isHalted_eq (m : Machine) : isHalted m = .ok m.isHalted := by
  rw [isHalted, register_eq, ok_bind]
  exact byteBit_eq _ (by decide)

theorem retire_eq (h : m.cpu.instructions.toNat + 1 < UInt64.size) : retire m = .ok m.retire := by
  have hadd : add m.cpu.instructions 1 = .ok (m.cpu.instructions + 1) := add_eq h
  rw [retire, hadd, ok_bind, readRaw_eq]
  rfl

end

end Checked

/-! ## Counting instructions -/

namespace Machine

/-- How many instructions the next one that is processed executes: none in a halt. -/
def executes (m : Machine) : Nat :=
  if m.isHalted then 0 else 1

/-- How many instructions a number of steps execute. -/
def executedIn (m : Machine) : Nat → Nat
  | 0 => 0
  | steps + 1 => m.executes + m.step.1.executedIn steps

end Machine

def Act.executed (m : Machine) : Act → Nat
  | step | instruction _ => m.executes
  | runFor cycles => m.executedIn (m.stepsFor cycles.toNat)
  | _ => 0

namespace Machine

def executed (m : Machine) : List Act → Nat
  | [] => 0
  | a :: acts => a.executed m + (a.run m).executed acts

theorem instructions_execute (m : Machine) (raw : UInt8) :
    (m.execute raw).cpu.instructions = m.cpu.instructions := by
  unfold execute
  by_cases h : Instruction.decode raw = .reti
  · rw [h]
    show m.leave.cpu.instructions = _
    cases hs : m.cpu.services with
    | nil => rw [leave_nil hs]
    | cons r rest => rw [leave_cons hs]
  · rw [(Keeps.perform m raw h).cpu]

theorem instructions_fetchOpcode (m : Machine) (noted : Bool) :
    (m.fetchOpcode noted).cpu.instructions = m.cpu.instructions := by
  have hcommit : m.commitBank.cpu.instructions = m.cpu.instructions := by
    unfold commitBank
    split
    · rfl
    · rfl
  cases noted with
  | false => exact hcommit
  | true => exact hcommit

theorem instructions_processInstruction_le (m : Machine) (noted : Bool) :
    (m.processInstruction noted).1.cpu.instructions.toNat ≤
      m.cpu.instructions.toNat + m.executes := by
  cases h : m.isHalted with
  | true =>
    rw [processInstruction_of_halted noted h]
    exact Nat.le_add_right _ _
  | false =>
    have hone : m.executes = 1 := by
      rw [executes, h]
      rfl
    rw [processInstruction_of_not_halted noted h, hone]
    show (((m.start.fetchOpcode noted).execute _).cpu.instructions + 1).toNat ≤ _
    rw [instructions_execute, instructions_fetchOpcode, UInt64.toNat_add]
    exact Nat.mod_le _ _

theorem instructions_poll_le (m : Machine) :
    m.poll.1.cpu.instructions.toNat ≤ m.cpu.instructions.toNat := by
  rcases poll_cases m with ⟨-, hp⟩ | ⟨s, -, hp⟩
  · rw [hp]
    exact Nat.le_refl _
  · rw [hp]
    by_cases hr : s = .reset
    · rw [hr, serve_reset]
      exact Nat.zero_le _
    · rw [serve_of_ne hr]
      exact Nat.le_refl _

theorem instructions_step_le (m : Machine) :
    m.step.1.cpu.instructions.toNat ≤ m.cpu.instructions.toNat + m.executes := by
  refine Nat.le_trans (instructions_poll_le _) ?_
  show (elapse _ _).cpu.instructions.toNat ≤ _
  rw [(passes_elapse _ _).cpu]
  exact instructions_processInstruction_le m m.debug

theorem instructions_runSteps_le (m : Machine) (elapsed steps : Nat) :
    (m.runSteps elapsed steps).1.cpu.instructions.toNat ≤
      m.cpu.instructions.toNat + m.executedIn steps := by
  induction steps generalizing m elapsed with
  | zero => exact Nat.le_refl _
  | succ steps ih =>
    have hstep := m.instructions_step_le
    have hrest := ih m.step.1 (elapsed + m.step.2)
    rw [executedIn]
    exact Nat.le_trans hrest (by omega)

theorem instructions_act_le (m : Machine) (a : Act) :
    (a.run m).cpu.instructions.toNat ≤ m.cpu.instructions.toNat + a.executed m := by
  cases a with
  | step => exact m.instructions_step_le
  | runFor cycles =>
    have hrun := m.instructions_runSteps_le 0 (m.stepsFor cycles.toNat)
    rwa [← runOn_eq_runSteps] at hrun
  | instruction noted => exact m.instructions_processInstruction_le noted
  | execute raw =>
    rw [Act.run, instructions_execute]
    exact Nat.le_add_right _ _
  | poll => exact m.instructions_poll_le
  | stepTimer0 => exact Nat.le_of_eq (congrArg (·.instructions.toNat) (passes_takeTimer0 m _).cpu)
  | stepTimer1 => exact Nat.le_of_eq (congrArg (·.instructions.toNat) (passes_takeTimer1 m _).cpu)
  | tickTimer0 => exact Nat.le_of_eq (congrArg (·.instructions.toNat) (passes_takeTimer0 m _).cpu)
  | tickTimer1 => exact Nat.le_of_eq (congrArg (·.instructions.toNat) (passes_takeTimer1 m _).cpu)
  | reset => exact Nat.zero_le _
  | directBoot => exact Nat.zero_le _
  | writeProgram address value =>
    rw [Act.run, writeProgram_eq]
    exact Nat.le_add_right _ _
  | _ => exact Nat.le_add_right _ _

end Machine

/-! ## No check fails -/

namespace Checked

variable {m : Machine}

theorem processInstruction_eq (h : m.cpu.instructions.toNat + m.executes < UInt64.size)
    (noted : Bool) : processInstruction m noted = .ok (m.processInstruction noted) := by
  cases hh : m.isHalted with
  | true =>
    rw [Machine.processInstruction_of_halted noted hh, processInstruction]
    dsimp only
    rw [isHalted_eq, ok_bind]
    exact if_pos hh
  | false =>
    have hone : m.executes = 1 := by
      rw [Machine.executes, hh]
      rfl
    have hcount : ((m.start.fetchOpcode noted).execute
        m.start.commitBank.fetch.2).cpu.instructions.toNat + 1 < UInt64.size := by
      rw [Machine.instructions_execute, Machine.instructions_fetchOpcode, ← hone]
      exact h
    have hretire := retire_eq hcount
    have hstart : m.start.isHalted = false := hh
    rw [Machine.processInstruction_of_not_halted noted hh]
    simp only [processInstruction, isHalted_eq, hstart, isPlain_host.fetch, execute_eq, ok_bind,
      pure_eq_ok]
    show (do
      let n ← retire ((m.start.fetchOpcode noted).execute m.start.commitBank.fetch.2)
      pure (n, Progress.executed (Instruction.decode m.start.commitBank.fetch.2).cycles)) = _
    rw [hretire]
    rfl

theorem stepTimer0_eq (h : m.Clocked) : stepTimer0 m = .ok m.stepTimer0 := by
  rw [stepTimer0, stepTimer_eq (.inl rfl) h.timer0]
  rfl

theorem stepTimer1_eq (h : m.Clocked) : stepTimer1 m = .ok m.stepTimer1 := by
  rw [stepTimer1, stepTimer_eq (.inr rfl) h.timer1]
  rfl

theorem tickTimer0_eq (h : m.Clocked) : tickTimer0 m = .ok m.tickTimer0 := by
  rw [tickTimer0, tickTimer_eq (.inl rfl) h.timer0]
  rfl

theorem tickTimer1_eq (h : m.Clocked) : tickTimer1 m = .ok m.tickTimer1 := by
  rw [tickTimer1, tickTimer_eq (.inr rfl) h.timer1]
  rfl

theorem elapse_eq (h : m.Clocked) (cycles : Nat) : elapse m cycles = .ok (m.elapse cycles) := by
  induction cycles generalizing m with
  | zero => rfl
  | succ cycles ih =>
    rw [elapse, stepTimer0_eq h, ok_bind, stepTimer1_eq h.stepTimer0, ok_bind,
      ih h.stepTimer0.stepTimer1]
    rfl

theorem step_eq (h : m.Clocked) (hn : m.cpu.instructions.toNat + m.executes < UInt64.size) :
    step m = .ok m.step := by
  have hrun := h.outside (Machine.runs_processInstruction m m.debug).outside
  simp only [step, processInstruction_eq hn, elapse_eq hrun, poll_eq, ok_bind]
  rfl

end Checked

namespace Machine

theorem step_cycles_le (m : Machine) : m.step.2 ≤ 7 := by
  simp only [step, advance, processInstruction]
  split
  · exact (by decide : 1 ≤ 7)
  · exact Instruction.cycles_le _

end Machine

namespace Checked

theorem addCycles_eq {elapsed : UInt64} {k : Nat} (h : elapsed.toNat < UInt64.size - 7)
    (hk : k ≤ 7) : add elapsed (UInt64.ofNat k) = .ok (elapsed + UInt64.ofNat k) ∧
      (elapsed + UInt64.ofNat k).toNat = elapsed.toNat + k := by
  have hval : (UInt64.ofNat k).toNat = k :=
    UInt64.toNat_ofNat_of_lt' (Nat.lt_of_le_of_lt hk (by decide))
  have hlt : elapsed.toNat + (UInt64.ofNat k).toNat < UInt64.size := by omega
  exact ⟨add_eq hlt, by rw [UInt64.toNat_add, Nat.mod_eq_of_lt hlt, hval]⟩

/-- A run by cycles ends, and where the run without checks does: a step that starts before the last
cycle ends at a time that can be counted, and takes some. -/
theorem runOn_eq {m : Machine} (h : m.Clocked) (elapsed : UInt64) {cycles : UInt64}
    (hc : cycles.toNat ≤ UInt64.size - 7)
    (hn : m.cpu.instructions.toNat +
      m.executedIn (m.stepsFor (cycles.toNat - elapsed.toNat)) < UInt64.size) :
    runOn m elapsed cycles =
      .ok ((m.runOn elapsed.toNat (cycles.toNat - elapsed.toNat)).1,
        .ofNat (m.runOn elapsed.toNat (cycles.toNat - elapsed.toNat)).2) := by
  induction hd : cycles.toNat - elapsed.toNat using Nat.strongRecOn generalizing m elapsed with
  | _ d ih =>
    rw [hd] at hn
    unfold runOn
    by_cases hlt : elapsed < cycles
    · have hlt' := UInt64.lt_iff_toNat_lt.mp hlt
      have hne : d ≠ 0 := by omega
      have hpos := m.step_cycles_pos
      have hle := m.step_cycles_le
      rw [Machine.stepsFor_of_ne_zero m hne, Machine.executedIn] at hn
      obtain ⟨hadd, hnext⟩ := addCycles_eq (by omega : elapsed.toNat < UInt64.size - 7) hle
      have hmore : elapsed < elapsed + UInt64.ofNat m.step.2 := by
        rw [UInt64.lt_iff_toNat_lt, hnext]
        omega
      have hleft : cycles.toNat - (elapsed + UInt64.ofNat m.step.2).toNat = d - m.step.2 := by
        omega
      have hcount := m.instructions_step_le
      have hrest : runOn m.step.1 (elapsed + UInt64.ofNat m.step.2) cycles =
          .ok ((m.runOn elapsed.toNat d).1, .ofNat (m.runOn elapsed.toNat d).2) := by
        rw [Machine.runOn_of_ne_zero m _ hne, ← hnext]
        exact ih (d - m.step.2) (by omega) h.step _ (by rw [hleft]; omega) hleft
      rw [if_pos hlt, step_eq h (by omega), ok_bind]
      dsimp only
      rw [hadd, ok_bind, if_pos hmore, hrest]
    · have hge := UInt64.not_lt.mp hlt
      have hge' := UInt64.le_iff_toNat_le.mp hge
      have hzero : d = 0 := by omega
      rw [if_neg hlt, hzero, Machine.runOn, if_pos rfl, UInt64.ofNat_toNat]
      rfl

/-! ## Acts -/

def act (m : Machine) : Act → Checked Machine
  | .step => do return (← step m).1
  | .runFor cycles => do return (← runOn m 0 cycles).1
  | .instruction noted => do return (← processInstruction m noted).1
  | .execute raw => execute m raw
  | .fetch => do return (← host.fetch m).1
  | .poll => do return (← poll m).1
  | .stepTimer0 => stepTimer0 m
  | .stepTimer1 => stepTimer1 m
  | .tickTimer0 => tickTimer0 m
  | .tickTimer1 => tickTimer1 m
  | .reset => reset m
  | .directBoot entry => directBoot m entry
  | .jump pc => return m.jump pc
  | .setDebug on => return { m with debug := on }
  | .writeRam address value => do return { m with ram := ← write m.ram address value }
  | .writeStack sp value => do return { m with ram := ← writeStack m.ram sp value }
  | .clearRegisters => return { m with ram := m.ram.resetRegisters }
  | .writeFlash address value => do return { m with flash := ← writeFlash m.flash address value }
  | .writeProgram address value =>
    match m.bank with
    | .rom => return m.writeProgram address value
    | .flash => do return { m with flash := ← writeBanked m.flash 0 address value }
  | .loadRom address value => do return { m with rom := ← loadRom m.rom address value }
  | .raise s => do return { m with interrupts := ← raise m.interrupts s }
  | .lower s => do return { m with interrupts := ← lower m.interrupts s }
  | .lowerAll => return { m with interrupts := {} }
  | .restore saved => return { m with interrupts := saved }

def runActs (m : Machine) (acts : List Act) : Checked Machine :=
  acts.foldlM act m

theorem act_eq {m : Machine} (h : m.Clocked) {a : Act}
    (ha : ∀ cycles, a = .runFor cycles → cycles.toNat ≤ UInt64.size - 7)
    (hn : m.cpu.instructions.toNat + a.executed m < UInt64.size) : act m a = .ok (a.run m) := by
  cases a with
  | step =>
    rw [act, step_eq h hn]
    rfl
  | runFor cycles =>
    rw [act, runOn_eq h 0 (ha cycles rfl) hn]
    rfl
  | instruction noted =>
    rw [act, processInstruction_eq hn]
    rfl
  | execute raw => exact execute_eq m raw
  | fetch => rw [act, isPlain_host.fetch]; rfl
  | poll => rw [act, poll_eq]; rfl
  | stepTimer0 => exact stepTimer0_eq h
  | stepTimer1 => exact stepTimer1_eq h
  | tickTimer0 => exact tickTimer0_eq h
  | tickTimer1 => exact tickTimer1_eq h
  | reset => exact reset_eq m
  | directBoot entry => exact directBoot_eq m entry
  | writeRam address value => rw [act, write_eq]; rfl
  | writeStack sp value => rw [act, writeStack_eq]; rfl
  | writeFlash address value => rw [act, writeFlash_eq]; rfl
  | writeProgram address value =>
    simp only [act, Act.run, Machine.writeProgram]
    cases m.bank with
    | rom => rfl
    | flash => rw [writeBanked_eq]; rfl
  | loadRom address value => rw [act, loadRom_eq]; rfl
  | raise s => rw [act, raise_eq]; rfl
  | lower s => rw [act, lower_eq]; rfl
  | _ => rfl

theorem runActs_eq {m : Machine} (h : m.Clocked) {acts : List Act}
    (ha : ∀ cycles, .runFor cycles ∈ acts → cycles.toNat ≤ UInt64.size - 7)
    (hn : m.cpu.instructions.toNat + m.executed acts < UInt64.size) :
    runActs m acts = .ok (m.runActs acts) := by
  induction acts generalizing m with
  | nil => rfl
  | cons a acts ih =>
    rw [Machine.executed] at hn
    have hcount := m.instructions_act_le a
    have hact : act m a = .ok (a.run m) := by
      refine act_eq h (fun cycles heq => ha cycles ?_) (by omega)
      rw [heq]
      exact List.mem_cons_self ..
    have hrest := ih (h.act a) (fun cycles hmem => ha cycles (List.mem_cons_of_mem _ hmem))
      (by omega)
    rw [runActs, List.foldlM_cons, hact, ok_bind]
    exact hrest

end Checked

theorem Machine.boot_instructions {bios flash : Array UInt8} {config : Config} {journal : Journal}
    {m : Machine} (h : boot bios flash config journal = .ok m) : m.cpu.instructions = 0 := by
  obtain ⟨rom, chip, -, -, rfl⟩ := boot_eq_ok h
  split
  · rfl
  · rfl

/-- **Once booted, nothing can fail.** After any boot that succeeds, any acts of a front end that
execute fewer than `2 ^ 64` instructions pass all checks: every access is in bounds, no arithmetic
overflows or divides by zero, and no assertion fails. The run ends in the machine that the acts make
without checks. -/
theorem run_never_fails {bios flash : Array UInt8} {config : Config} {journal : Journal}
    {m : Machine} (h : Machine.boot bios flash config journal = .ok m) {acts : List Act}
    (ha : ∀ cycles, .runFor cycles ∈ acts → cycles.toNat ≤ UInt64.size - 7)
    (hn : m.executed acts < UInt64.size) : Checked.runActs m acts = .ok (m.runActs acts) := by
  refine Checked.runActs_eq (Reachable.boot h).clocked ha ?_
  rw [Machine.boot_instructions h]
  exact (Nat.zero_add _).symm ▸ hn

/-- A division by zero, a multiplication, and a timer that overflows over and over. -/
def dividing : List Act :=
  [.writeRam 0x118 0xC0, .writeRam 0x11B 0xFE, .runFor 20, .raise .int2, .instruction false, .poll]

theorem run_never_fails_dividing :
    let m := Machine.cold #[0x40, 0x30] (by decide)
    Machine.boot #[0x40, 0x30] #[] {} {} = .ok m ∧ m.executed dividing = 4 ∧
      Checked.runActs m dividing = .ok (m.runActs dividing) := by
  intro m
  have hboot : Machine.boot #[0x40, 0x30] #[] {} {} = .ok m :=
    Machine.boot_firmware rfl (by decide) (by decide) (Nat.zero_le _)
  have hn : m.executed dividing = 4 := by decide +kernel
  refine ⟨hboot, hn, run_never_fails hboot ?_ ?_⟩
  · intro cycles hmem
    simp [dividing] at hmem
    rw [hmem]
    decide
  · rw [hn]
    decide

end VisualMemory
