import VisualMemory.Machine.Step
import VisualMemory.Proofs.Ram

/-!
# What an instruction leaves alone

An instruction moves the program counter and writes flash and the RAM behind the latches. Only the
return from a service routine does more: it takes the innermost routine off the list of those in
progress.

* `Machine.Keeps`: the frame of an instruction other than that one; `Keeps.perform`.
* `Machine.Leaves`: the frame of the return; `leaves_leave`.
* `Machine.Runs`: the frame of one processed instruction of any kind; `runs_processInstruction`.
* `Machine.Passes`: the frame of time; `passes_elapse`.
-/

namespace VisualMemory.Machine

open Interrupt (Service Level)

/-! ## Instructions without service -/

/-- `n` is `m` with at most another program counter, other bytes in RAM and other bytes in flash. -/
structure Keeps (m n : Machine) : Prop where
  cpu : n.cpu = { m.cpu with pc := n.cpu.pc }
  timer0 : n.timer0 = m.timer0
  timer1 : n.timer1 = m.timer1
  latches : n.ram.latches = m.ram.latches
  rom : n.rom = m.rom
  interrupts : n.interrupts = m.interrupts
  buzzer : n.buzzer = m.buzzer
  debug : n.debug = m.debug
  journal : n.journal = m.journal

namespace Keeps

theorem refl (m : Machine) : Keeps m m :=
  ⟨rfl, rfl, rfl, rfl, rfl, rfl, rfl, rfl, rfl⟩

theorem trans {m n k : Machine} (h : Keeps m n) (h' : Keeps n k) : Keeps m k where
  cpu := by rw [h'.cpu, h.cpu]
  timer0 := h'.timer0.trans h.timer0
  timer1 := h'.timer1.trans h.timer1
  latches := h'.latches.trans h.latches
  rom := h'.rom.trans h.rom
  interrupts := h'.interrupts.trans h.interrupts
  buzzer := h'.buzzer.trans h.buzzer
  debug := h'.debug.trans h.debug
  journal := h'.journal.trans h.journal

variable (m : Machine)

theorem jump (pc : UInt16) : Keeps m (m.jump pc) :=
  ⟨rfl, rfl, rfl, rfl, rfl, rfl, rfl, rfl, rfl⟩

theorem setRegister (address : UInt16) (value : UInt8) : Keeps m (m.setRegister address value) :=
  ⟨rfl, rfl, rfl, Ram.latches_write .., rfl, rfl, rfl, rfl, rfl⟩

theorem push (value : UInt8) : Keeps m (m.push value) :=
  ⟨rfl, rfl, rfl, (Ram.latches_write ..).trans (Ram.latches_setCell ..), rfl, rfl, rfl, rfl, rfl⟩

theorem pop : Keeps m m.pop.1 :=
  ⟨rfl, rfl, rfl, Ram.latches_write .., rfl, rfl, rfl, rfl, rfl⟩

theorem storeFlashByte : Keeps m m.storeFlashByte :=
  ⟨rfl, rfl, rfl, rfl, rfl, rfl, rfl, rfl, rfl⟩

theorem fetch : Keeps m m.fetch.1 :=
  jump m _

theorem operandAddress (raw : UInt8) (o : Operand) : Keeps m (m.operandAddress raw o).1 := by
  cases o with
  | indirect => exact refl m
  | direct => exact fetch m
  | immediate => exact fetch m

theorem operandValue (raw : UInt8) (o : Operand) : Keeps m (m.operandValue raw o).1 := by
  cases o with
  | immediate => exact fetch m
  | direct => exact operandAddress m raw .direct
  | indirect => exact operandAddress m raw .indirect

theorem fetchCompared (raw : UInt8) (o : Operand) : Keeps m (m.fetchCompared raw o).1 := by
  cases o <;> exact fetch m

theorem fetchTwice : Keeps m m.fetch.1.fetch.1 :=
  (fetch m).trans (fetch _)

theorem branchIf (taken : Bool) (target : UInt16) : Keeps m (m.branchIf taken target) := by
  unfold Machine.branchIf
  split
  · exact jump m target
  · exact refl m

theorem branchWhen (test : Bool) : Keeps m (m.branchWhen test) :=
  (fetch m).trans (branchIf ..)

theorem modifyOperand (raw : UInt8) (o : Operand) (f : UInt8 → UInt8) :
    Keeps m (m.modifyOperand raw o f) :=
  (operandAddress m raw o).trans (setRegister ..)

theorem modifyBit (raw : UInt8) (f : UInt8 → UInt8 → UInt8) : Keeps m (m.modifyBit raw f) :=
  (fetch m).trans (setRegister ..)

theorem combine (raw : UInt8) (o : Operand) (f : UInt8 → UInt8 → UInt8) :
    Keeps m (m.combine raw o f) :=
  (operandValue m raw o).trans (setRegister ..)

theorem calculate (raw : UInt8) (o : Operand) (f : UInt8 → UInt8 → Bool → Alu.Result) (c : Bool) :
    Keeps m (m.calculate raw o f c) :=
  ((operandValue m raw o).trans (setRegister ..)).trans (setRegister ..)

theorem compareBranch (raw : UInt8) (o : Operand) (onEqual : Bool) :
    Keeps m (m.compareBranch raw o onEqual) :=
  (((fetchCompared m raw o).trans (fetch _)).trans (setRegister ..)).trans (branchIf ..)

theorem bitBranch (raw : UInt8) (onSet : Bool) : Keeps m (m.bitBranch raw onSet) :=
  (fetchTwice m).trans (branchIf ..)

theorem bitBranchClear (raw : UInt8) : Keeps m (m.bitBranchClear raw) := by
  simp only [Machine.bitBranchClear]
  split
  · exact ((fetchTwice m).trans (setRegister ..)).trans (jump ..)
  · exact fetchTwice m

theorem countdown (raw : UInt8) (o : Operand) : Keeps m (m.countdown raw o) :=
  (((operandAddress m raw o).trans (fetch _)).trans (setRegister ..)).trans (branchIf ..)

theorem callTo (target : UInt16) : Keeps m (m.callTo target) :=
  ((push m _).trans (push ..)).trans (jump ..)

theorem popAddress : Keeps m m.popAddress.1 :=
  (pop m).trans (pop _)

theorem rollLeftCarry : Keeps m m.rollLeftCarry :=
  (setRegister m _ _).trans (setRegister ..)

theorem rollRightCarry : Keeps m m.rollRightCarry :=
  (setRegister m _ _).trans (setRegister ..)

theorem exchange (address : UInt16) : Keeps m (m.exchange address) :=
  (setRegister m _ _).trans (setRegister ..)

theorem multiply : Keeps m m.multiply :=
  ((((setRegister m _ _).trans (setRegister ..)).trans (setRegister ..)).trans
    (setRegister ..)).trans (setRegister ..)

theorem divide : Keeps m m.divide := by
  simp only [Machine.divide]
  refine Keeps.trans ?_ (setRegister ..)
  split
  · exact ((setRegister m _ _).trans (setRegister ..)).trans (setRegister ..)
  · exact (((setRegister m _ _).trans (setRegister ..)).trans (setRegister ..)).trans
      (setRegister ..)

/-- Every instruction but the return from a service routine keeps all but program counter, RAM
and flash. -/
theorem perform (raw : UInt8) {i : Instruction} (hi : i ≠ .reti) : Keeps m (m.perform raw i) := by
  cases i with
  | reti => exact absurd rfl hi
  | nop => exact refl m
  | ld o => exact (operandValue m raw o).trans (setRegister ..)
  | st o => exact (operandAddress m raw o).trans (setRegister ..)
  | mov o => exact ((operandAddress m raw o).trans (fetch _)).trans (setRegister ..)
  | push => exact (fetch m).trans (push ..)
  | pop => exact ((fetch m).trans (pop _)).trans (setRegister ..)
  | xch o => exact (operandAddress m raw o).trans (exchange ..)
  | ldc => exact setRegister ..
  | ldf => exact setRegister ..
  | stf => exact storeFlashByte m
  | add o => exact calculate ..
  | addc o => exact calculate ..
  | sub o => exact calculate ..
  | subc o => exact calculate ..
  | inc o => exact modifyOperand m raw o (· + 1)
  | dec o => exact modifyOperand m raw o (· - 1)
  | mul => exact multiply m
  | div => exact divide m
  | and o => exact combine ..
  | or o => exact combine ..
  | xor o => exact combine ..
  | rol => exact setRegister ..
  | ror => exact setRegister ..
  | rolc => exact rollLeftCarry m
  | rorc => exact rollRightCarry m
  | set1 => exact modifyBit m raw (·.setBit · true)
  | clr1 => exact modifyBit m raw (·.setBit · false)
  | not1 => exact modifyBit m raw (·.flipBit ·)
  | br => exact branchWhen ..
  | bz => exact branchWhen ..
  | bnz => exact branchWhen ..
  | brf => exact (fetchTwice m).trans (jump ..)
  | bp => exact bitBranch ..
  | bn => exact bitBranch ..
  | bpc => exact bitBranchClear ..
  | be o => exact compareBranch ..
  | bne o => exact compareBranch ..
  | dbnz o => exact countdown ..
  | jmp => exact (fetch m).trans (jump ..)
  | jmpf => exact (fetchTwice m).trans (jump ..)
  | call => exact (fetch m).trans (callTo ..)
  | callf => exact (fetchTwice m).trans (callTo ..)
  | callr => exact (fetchTwice m).trans (callTo ..)
  | ret => exact (popAddress m).trans (jump ..)

end Keeps

/-! ## The return from a service routine -/

/-- The level that the return from the innermost of these routines goes back to. -/
def levelBelow : List Service → Level
  | [] => .idle
  | r :: _ => r.previousLevel

/-- What no instruction reaches: timers, latches, ROM, controller, buzzer, queue and settings. -/
structure Outside (m n : Machine) : Prop where
  timer0 : n.timer0 = m.timer0
  timer1 : n.timer1 = m.timer1
  latches : n.ram.latches = m.ram.latches
  rom : n.rom = m.rom
  interrupts : n.interrupts = m.interrupts
  buzzer : n.buzzer = m.buzzer
  debug : n.debug = m.debug
  direct : n.cpu.direct = m.cpu.direct
  queue : n.cpu.queue = m.cpu.queue

theorem Outside.trans {m n k : Machine} (h : Outside m n) (h' : Outside n k) : Outside m k where
  timer0 := h'.timer0.trans h.timer0
  timer1 := h'.timer1.trans h.timer1
  latches := h'.latches.trans h.latches
  rom := h'.rom.trans h.rom
  interrupts := h'.interrupts.trans h.interrupts
  buzzer := h'.buzzer.trans h.buzzer
  debug := h'.debug.trans h.debug
  direct := h'.direct.trans h.direct
  queue := h'.queue.trans h.queue

/-- `n` is `m` with the same service routines in progress. -/
structure Stays (m n : Machine) : Prop extends Outside m n where
  services : n.cpu.services = m.cpu.services
  level : n.cpu.level = m.cpu.level

/-- `n` is `m` without the innermost service routine, if there was one. -/
structure Leaves (m n : Machine) : Prop extends Outside m n where
  services : n.cpu.services = m.cpu.services.tail
  level : n.cpu.level = levelBelow m.cpu.services

theorem Stays.trans {m n k : Machine} (h : Stays m n) (h' : Stays n k) : Stays m k :=
  ⟨h.toOutside.trans h'.toOutside, h'.services.trans h.services, h'.level.trans h.level⟩

theorem Keeps.stays {m n : Machine} (h : Keeps m n) : Stays m n where
  timer0 := h.timer0
  timer1 := h.timer1
  latches := h.latches
  rom := h.rom
  interrupts := h.interrupts
  buzzer := h.buzzer
  debug := h.debug
  direct := by rw [h.cpu]
  queue := by rw [h.cpu]
  services := by rw [h.cpu]
  level := by rw [h.cpu]

theorem leave_nil {m : Machine} (h : m.cpu.services = []) :
    m.leave = { m.popAddress.1 with
      cpu := { m.cpu with pc := m.popAddress.2, level := .idle } } := by
  have h' : (m.popAddress.1.jump m.popAddress.2).cpu.services = [] := h
  unfold leave
  dsimp only
  split
  next heq =>
    rw [h'] at heq
    cases heq
  next => rfl

theorem leave_cons {m : Machine} {r : Service} {rest : List Service}
    (h : m.cpu.services = r :: rest) :
    m.leave = { m.popAddress.1 with
      cpu := { m.cpu with pc := m.popAddress.2, services := rest, level := r.previousLevel }
      journal := m.journal.note (.left r.source) } := by
  have h' : (m.popAddress.1.jump m.popAddress.2).cpu.services = r :: rest := h
  unfold leave
  dsimp only
  split
  next heq =>
    rw [h'] at heq
    cases heq
    rfl
  next heq =>
    rw [h'] at heq
    cases heq

theorem leaves_leave (m : Machine) : Leaves m m.leave := by
  have hp := (Keeps.popAddress m).latches
  cases h : m.cpu.services with
  | nil =>
    rw [leave_nil h]
    exact ⟨⟨rfl, rfl, hp, rfl, rfl, rfl, rfl, rfl, rfl⟩, h ▸ h, by rw [h]; rfl⟩
  | cons r rest =>
    rw [leave_cons h]
    exact ⟨⟨rfl, rfl, hp, rfl, rfl, rfl, rfl, rfl, rfl⟩, by rw [h]; rfl, by rw [h]; rfl⟩

/-! ## One processed instruction -/

/-- `n` is `m` after at most one instruction. -/
def Runs (m n : Machine) : Prop :=
  Stays m n ∨ Leaves m n

namespace Runs

variable {m n k : Machine}

theorem outside (h : Runs m n) : Outside m n := by
  rcases h with h | h
  · exact h.toOutside
  · exact h.toOutside

theorem after_stays (h : Stays m n) (h' : Runs n k) : Runs m k := by
  rcases h' with h' | h'
  · exact .inl (h.trans h')
  · exact .inr ⟨h.toOutside.trans h'.toOutside, by rw [h'.services, h.services],
      by rw [h'.level, h.services]⟩

theorem before_stays (h : Runs m n) (h' : Stays n k) : Runs m k := by
  rcases h with h | h
  · exact .inl (h.trans h')
  · exact .inr ⟨h.toOutside.trans h'.toOutside, h'.services.trans h.services,
      h'.level.trans h.level⟩

end Runs

theorem runs_execute (m : Machine) (raw : UInt8) : Runs m (m.execute raw) := by
  unfold execute
  by_cases h : Instruction.decode raw = .reti
  · rw [h]
    exact .inr (leaves_leave m)
  · exact .inl (Keeps.perform m raw h).stays

theorem stays_commitBank (m : Machine) : Stays m m.commitBank := by
  unfold commitBank
  split
  · exact ⟨⟨rfl, rfl, rfl, rfl, rfl, rfl, rfl, rfl, rfl⟩, rfl, rfl⟩
  · exact (Keeps.refl m).stays

theorem stays_retire (m : Machine) : Stays m m.retire :=
  ⟨⟨rfl, rfl, rfl, rfl, rfl, rfl, rfl, rfl, rfl⟩, rfl, rfl⟩

/-- The machine with its processor started. -/
def start (m : Machine) : Machine :=
  { m with cpu := { m.cpu with runState := .started } }

theorem stays_start (m : Machine) : Stays m m.start :=
  ⟨⟨rfl, rfl, rfl, rfl, rfl, rfl, rfl, rfl, rfl⟩, rfl, rfl⟩

/-- The machine with an opcode byte fetched, and noted if so wished. -/
def fetchOpcode (m : Machine) (noted : Bool) : Machine :=
  if noted then m.commitBank.fetch.1.noteDecoded m.commitBank.fetch.2 else m.commitBank.fetch.1

theorem stays_fetchOpcode (m : Machine) (noted : Bool) : Stays m (m.fetchOpcode noted) := by
  have hf : Stays m m.commitBank.fetch.1 := (stays_commitBank m).trans (Keeps.fetch _).stays
  cases noted with
  | false => exact hf
  | true => exact ⟨⟨hf.timer0, hf.timer1, hf.latches, hf.rom, hf.interrupts, hf.buzzer, hf.debug,
      hf.direct, hf.queue⟩, hf.services, hf.level⟩

theorem processInstruction_of_halted {m : Machine} (noted : Bool) (h : m.isHalted = true) :
    m.processInstruction noted = (m.start, .halted) :=
  if_pos h

theorem processInstruction_of_not_halted {m : Machine} (noted : Bool) (h : m.isHalted = false) :
    m.processInstruction noted =
      (((m.start.fetchOpcode noted).execute m.start.commitBank.fetch.2).retire,
        .executed (Instruction.decode m.start.commitBank.fetch.2).cycles) := by
  have h' : ¬ m.start.isHalted = true := by
    intro h'
    exact absurd (h.symm.trans h') (by decide)
  exact if_neg h'

theorem runs_processInstruction (m : Machine) (noted : Bool) :
    Runs m (m.processInstruction noted).1 := by
  cases h : m.isHalted with
  | true =>
    rw [processInstruction_of_halted noted h]
    exact .inl (stays_start m)
  | false =>
    rw [processInstruction_of_not_halted noted h]
    refine Runs.before_stays ?_ (stays_retire _)
    exact Runs.after_stays ((stays_start m).trans (stays_fetchOpcode ..)) (runs_execute ..)

theorem writeProgram_eq (m : Machine) (address : UInt16) (value : UInt8) :
    m.writeProgram address value =
      { m with
        rom := (m.writeProgram address value).rom
        flash := (m.writeProgram address value).flash
        journal := (m.writeProgram address value).journal } := by
  unfold writeProgram
  split
  · rfl
  · rfl

/-! ## The passing of time -/

/-- `n` is `m` with at most other timers, RAM, controller, buzzer and journal. -/
structure Passes (m n : Machine) : Prop where
  cpu : n.cpu = m.cpu
  rom : n.rom = m.rom
  flash : n.flash = m.flash
  debug : n.debug = m.debug

theorem Passes.trans {m n k : Machine} (h : Passes m n) (h' : Passes n k) : Passes m k :=
  ⟨h'.cpu.trans h.cpu, h'.rom.trans h.rom, h'.flash.trans h.flash, h'.debug.trans h.debug⟩

theorem hear_eq (m : Machine) (layout : Timer.Layout) (s : Timer.Signal) :
    m.hear layout s =
      { m with buzzer := (m.hear layout s).buzzer, journal := (m.hear layout s).journal } := by
  cases s with
  | period value =>
    simp only [hear]
    split
    · rfl
    · rfl
  | _ => rfl

theorem foldl_hear_eq (signals : List Timer.Signal) (m : Machine) (layout : Timer.Layout) :
    signals.foldl (·.hear layout) m =
      { m with
        buzzer := (signals.foldl (·.hear layout) m).buzzer
        journal := (signals.foldl (·.hear layout) m).journal } := by
  induction signals generalizing m with
  | nil => rfl
  | cons s signals ih =>
    rw [List.foldl_cons, ih, hear_eq m layout s]

theorem takeTimer0_eq (m : Machine) (o : Timer.Outcome) :
    m.takeTimer0 o =
      { m with
        timer0 := o.timer, ram := o.ram, interrupts := o.interrupts
        buzzer := (m.takeTimer0 o).buzzer, journal := (m.takeTimer0 o).journal } :=
  foldl_hear_eq ..

theorem takeTimer1_eq (m : Machine) (o : Timer.Outcome) :
    m.takeTimer1 o =
      { m with
        timer1 := o.timer, ram := o.ram, interrupts := o.interrupts
        buzzer := (m.takeTimer1 o).buzzer, journal := (m.takeTimer1 o).journal } :=
  foldl_hear_eq ..

section take

variable (m : Machine) (o : Timer.Outcome)

theorem takeTimer0_timer0 : (m.takeTimer0 o).timer0 = o.timer := by rw [takeTimer0_eq]

theorem takeTimer0_timer1 : (m.takeTimer0 o).timer1 = m.timer1 := by rw [takeTimer0_eq]

theorem takeTimer0_ram : (m.takeTimer0 o).ram = o.ram := by rw [takeTimer0_eq]

theorem takeTimer0_interrupts : (m.takeTimer0 o).interrupts = o.interrupts := by
  rw [takeTimer0_eq]

theorem takeTimer1_timer0 : (m.takeTimer1 o).timer0 = m.timer0 := by rw [takeTimer1_eq]

theorem takeTimer1_timer1 : (m.takeTimer1 o).timer1 = o.timer := by rw [takeTimer1_eq]

theorem takeTimer1_ram : (m.takeTimer1 o).ram = o.ram := by rw [takeTimer1_eq]

theorem takeTimer1_interrupts : (m.takeTimer1 o).interrupts = o.interrupts := by
  rw [takeTimer1_eq]

theorem passes_takeTimer0 : Passes m (m.takeTimer0 o) := by
  rw [takeTimer0_eq]
  exact ⟨rfl, rfl, rfl, rfl⟩

theorem passes_takeTimer1 : Passes m (m.takeTimer1 o) := by
  rw [takeTimer1_eq]
  exact ⟨rfl, rfl, rfl, rfl⟩

end take

theorem passes_elapse (m : Machine) (cycles : Nat) : Passes m (m.elapse cycles) := by
  induction cycles generalizing m with
  | zero => exact ⟨rfl, rfl, rfl, rfl⟩
  | succ cycles ih =>
    exact ((passes_takeTimer0 m _).trans (passes_takeTimer1 _ _)).trans (ih _)

end VisualMemory.Machine
