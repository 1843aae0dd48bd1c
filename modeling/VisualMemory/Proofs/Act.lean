import VisualMemory.Machine.Step

/-!
# Acts of a front end

A front end owns a machine and does one thing to it after another: it lets it run, clocks a timer by
itself, resets it, pokes its memories and its interrupt controller. The properties of this library
range over all sequences of such acts.

* `Act`, `Act.run`: one act and what it makes of a machine; `Machine.runActs` for many.
* `Reachable`: the machines that come from a boot by acts. `Reachable.of_act`: their invariants.
* `Act.raised`, `Act.served`: the sources that an act asks service for, and those that it serves;
  `Machine.raised`, `Machine.served` for many.

A block transfer is a sequence of single writes, so it is no act of its own. A front end does not
latch counters: the latches are the timers'.
-/

namespace VisualMemory

open Interrupt (Source Controller)

/-- One thing that a front end can do to a machine. -/
inductive Act where
  | step
  | runFor (cycles : UInt64)
  | instruction (noted : Bool)
  /-- The instruction of an opcode byte that is not fetched. -/
  | execute (raw : UInt8)
  | fetch
  | poll
  | stepTimer0
  | stepTimer1
  | tickTimer0
  | tickTimer1
  | reset
  | directBoot (entry : UInt16)
  | jump (pc : UInt16)
  | setDebug (on : Bool)
  | writeRam (address : Nat) (value : UInt8)
  | writeStack (sp value : UInt8)
  | clearRegisters
  | writeFlash (address : Nat) (value : UInt8)
  | writeProgram (address : UInt16) (value : UInt8)
  | loadRom (address : Nat) (value : UInt8)
  | raise (s : Source)
  | lower (s : Source)
  | lowerAll
  /-- The controller as it was saved. -/
  | restore (saved : Controller)
  deriving DecidableEq

def Act.run (m : Machine) : Act → Machine
  | step => m.step.1
  | runFor cycles => (m.runFor cycles.toNat).1
  | instruction noted => (m.processInstruction noted).1
  | execute raw => m.execute raw
  | fetch => m.fetch.1
  | poll => m.poll.1
  | stepTimer0 => m.stepTimer0
  | stepTimer1 => m.stepTimer1
  | tickTimer0 => m.tickTimer0
  | tickTimer1 => m.tickTimer1
  | reset => m.reset
  | directBoot entry => m.directBoot entry
  | jump pc => m.jump pc
  | setDebug on => { m with debug := on }
  | writeRam address value => { m with ram := m.ram.write address value }
  | writeStack sp value => { m with ram := m.ram.writeStack sp value }
  | clearRegisters => { m with ram := m.ram.resetRegisters }
  | writeFlash address value => { m with flash := m.flash.write address value }
  | writeProgram address value => m.writeProgram address value
  | loadRom address value => { m with rom := m.rom.load address value }
  | raise s => { m with interrupts := m.interrupts.raise s }
  | lower s => { m with interrupts := m.interrupts.lower s }
  | lowerAll => { m with interrupts := {} }
  | restore saved => { m with interrupts := saved }

/-- The machine after acts, one after the other. -/
def Machine.runActs (m : Machine) (acts : List Act) : Machine :=
  acts.foldl Act.run m

theorem Machine.runActs_append (m : Machine) (before after : List Act) :
    m.runActs (before ++ after) = (m.runActs before).runActs after :=
  List.foldl_append

/-- The machine comes from a boot by acts of a front end. -/
inductive Reachable : Machine → Prop
  | boot {bios flash : Array UInt8} {config : Config} {journal : Journal} {m : Machine}
      (h : Machine.boot bios flash config journal = .ok m) : Reachable m
  | act {m : Machine} (h : Reachable m) (a : Act) : Reachable (a.run m)

theorem Flash.size_padded {image : Array UInt8} (h : image.size ≤ size) :
    (image.toList ++ List.replicate (size - image.size) 0).toArray.size = 0x20000 := by
  simp [size] at h ⊢
  omega

/-- The chip with an image that fits. -/
def Flash.loaded (image : Array UInt8) (h : image.size ≤ size) : Flash :=
  ⟨⟨(image.toList ++ List.replicate (size - image.size) 0).toArray, size_padded h⟩⟩

theorem Flash.ofImage_of_le {image : Array UInt8} (h : image.size ≤ size) :
    ofImage image = .ok (loaded image h) :=
  dif_pos h

namespace Machine

/-- The machine before its first reset. -/
def unbooted (rom : Rom) (flash : Flash) (config : Config) (journal : Journal) : Machine :=
  { cpu := { frequency := config.frequency, direct := config.direct }, rom, flash, journal }

theorem boot_eq_ok {bios flash : Array UInt8} {config : Config} {journal : Journal} {m : Machine}
    (h : boot bios flash config journal = .ok m) :
    ∃ rom chip, Rom.ofImage bios = .ok rom ∧ Flash.ofImage flash = .ok chip ∧
      m = if config.direct then (unbooted rom chip config journal).reset.directBoot config.entry
        else (unbooted rom chip config journal).reset := by
  unfold boot at h
  simp only [bind, Except.bind] at h
  split at h
  · cases h
  · split at h
    · cases h
    · rename_i rom hrom
      split at h
      · cases h
      · rename_i chip hchip
        split at h
        · cases h
        · cases h
          exact ⟨rom, chip, hrom, hchip, rfl⟩

theorem boot_firmware {bios flash : Array UInt8} {config : Config} {journal : Journal}
    (hd : config.direct = false) (hpos : 0 < bios.size) (hrom : bios.size ≤ 0x10000)
    (hflash : flash.size ≤ Flash.size) :
    boot bios flash config journal =
      .ok (unbooted ⟨bios, hrom⟩ (.loaded flash hflash) config journal).reset := by
  have hr : Rom.ofImage bios = .ok ⟨bios, hrom⟩ := dif_pos hrom
  have hs : (Rom.mk bios hrom).size ≠ 0 := Nat.ne_of_gt hpos
  simp [boot, hd, hr, hs, Flash.ofImage_of_le hflash, unbooted, bind, Except.bind, pure,
    Except.pure]

/-- The machine that has just been booted with a firmware, and nothing in flash. -/
def cold (bios : Array UInt8) (h : bios.size ≤ 0x10000) : Machine :=
  (unbooted ⟨bios, h⟩ (.loaded #[] (Nat.zero_le _)) {} {}).reset

theorem idling_size_le : #[(0 : UInt8)].size ≤ 0x10000 := by
  decide

/-- The machine that has just been booted with a firmware that does nothing. -/
def idling : Machine :=
  cold #[0] idling_size_le

theorem runOn_keeps {P : Machine → Prop} (hstep : ∀ m, P m → P m.step.1) {m : Machine} (h : P m)
    (elapsed cycles : Nat) : P (m.runOn elapsed cycles).1 := by
  fun_induction runOn m elapsed cycles with
  | case1 => exact h
  | case2 m elapsed cycles hne next k hs hk ih =>
    have hnext := hstep m h
    rw [hs] at hnext
    exact ih hnext

theorem runOn_of_ne_zero (m : Machine) (elapsed : Nat) {cycles : Nat} (h : cycles ≠ 0) :
    m.runOn elapsed cycles = m.step.1.runOn (elapsed + m.step.2) (cycles - m.step.2) := by
  rw [runOn, if_neg h]

/-- Two machines that every step keeps related, and that takes the same time in both, are related
after any number of cycles. The relation may know how many are left. -/
theorem runOn_related {R : Nat → Machine → Machine → Prop}
    (hstep : ∀ left m n, left ≠ 0 → R left m n →
      m.step.2 = n.step.2 ∧ R (left - m.step.2) m.step.1 n.step.1)
    {cycles : Nat} {m n : Machine} (h : R cycles m n) (elapsed : Nat) :
    R 0 (m.runOn elapsed cycles).1 (n.runOn elapsed cycles).1 ∧
      (m.runOn elapsed cycles).2 = (n.runOn elapsed cycles).2 := by
  induction cycles using Nat.strongRecOn generalizing m n elapsed with
  | ind cycles ih =>
    by_cases hz : cycles = 0
    · subst hz
      rw [runOn, if_pos rfl, runOn, if_pos rfl]
      exact ⟨h, rfl⟩
    · obtain ⟨hk, hnext⟩ := hstep cycles m n hz h
      have hpos := m.step_cycles_pos
      rw [runOn_of_ne_zero m elapsed hz, runOn_of_ne_zero n elapsed hz, ← hk]
      exact ih (cycles - m.step.2) (by omega) hnext _

end Machine

theorem Reachable.cold {bios : Array UInt8} (hpos : 0 < bios.size) (h : bios.size ≤ 0x10000) :
    Reachable (Machine.cold bios h) :=
  .boot (Machine.boot_firmware rfl hpos h (Nat.zero_le _))

theorem Reachable.idling : Reachable Machine.idling :=
  .cold (by decide) _

/-- What holds after a boot's reset and is kept by every act holds of every reachable machine. -/
theorem Reachable.of_act {P : Machine → Prop}
    (hreset : ∀ rom flash config journal, P (Machine.unbooted rom flash config journal).reset)
    (hact : ∀ m a, P m → P (Act.run m a)) {m : Machine} (h : Reachable m) : P m := by
  induction h with
  | boot h =>
    obtain ⟨rom, chip, -, -, rfl⟩ := Machine.boot_eq_ok h
    split
    · exact hact _ (.directBoot _) (hreset ..)
    · exact hreset ..
  | act _ a ih => exact hact _ a ih

theorem Reachable.runActs {m : Machine} (h : Reachable m) (acts : List Act) :
    Reachable (m.runActs acts) := by
  induction acts generalizing m with
  | nil => exact h
  | cons a acts ih => exact ih (h.act a)

/-! ## Requests and services -/

namespace Timer

/-- The sources that one clock of the timer asks service for. -/
def tickRaised (t : Timer) (ram : Ram) : List Source :=
  t.requests (t.control ram) (Tick.of (t.control ram) (t.reloads ram) t.low t.high)

def stepRaised (t : Timer) (ram : Ram) : List Source :=
  match t.prescaler with
  | none => t.tickRaised ram
  | some p => if (p.step (ram.readRaw Register.t0prr.toNat)).2 then t.tickRaised ram else []

theorem tick_interrupts (t : Timer) (ram : Ram) (c : Controller) :
    (t.tick ram c).interrupts = (t.tickRaised ram).foldl (·.raise ·) c :=
  rfl

theorem step_interrupts (t : Timer) (ram : Ram) (c : Controller) :
    (t.step ram c).interrupts = (t.stepRaised ram).foldl (·.raise ·) c := by
  unfold step stepRaised
  cases t.prescaler with
  | none => exact tick_interrupts t ram c
  | some p =>
    dsimp only
    split
    · rfl
    · rfl

end Timer

namespace Machine

def cycleRaised (m : Machine) : List Source :=
  m.timer0.stepRaised m.ram ++ m.stepTimer0.timer1.stepRaised m.stepTimer0.ram

def elapseRaised (m : Machine) : Nat → List Source
  | 0 => []
  | cycles + 1 => m.cycleRaised ++ m.stepTimer0.stepTimer1.elapseRaised cycles

def stepRaised (m : Machine) : List Source :=
  let (m, progress) := m.processInstruction m.debug
  m.elapseRaised progress.cycles

/-- The source that the poll of one step serves. -/
def stepServed (m : Machine) : Option Source :=
  m.advance.1.poll.2

/-- How many steps it takes until at least `cycles` cycles have passed. -/
def stepsFor (m : Machine) (cycles : Nat) : Nat :=
  if cycles = 0 then 0
  else
    have := m.step_cycles_pos
    m.step.1.stepsFor (cycles - m.step.2) + 1
termination_by cycles

theorem stepsFor_of_ne_zero (m : Machine) {cycles : Nat} (h : cycles ≠ 0) :
    m.stepsFor cycles = m.step.1.stepsFor (cycles - m.step.2) + 1 := by
  rw [stepsFor, if_neg h]

theorem runOn_eq_runSteps (m : Machine) (elapsed cycles : Nat) :
    m.runOn elapsed cycles = m.runSteps elapsed (m.stepsFor cycles) := by
  fun_induction runOn m elapsed cycles with
  | case1 => rw [stepsFor, if_pos rfl]; rfl
  | case2 m elapsed cycles hne next k hs hk ih =>
    rw [ih, stepsFor_of_ne_zero m hne, hs]
    simp only [runSteps, hs]

theorem runSteps_succ (m : Machine) (elapsed steps : Nat) :
    m.runSteps elapsed (steps + 1) =
      ((m.runSteps elapsed steps).1.step.1,
        (m.runSteps elapsed steps).2 + (m.runSteps elapsed steps).1.step.2) := by
  induction steps generalizing m elapsed with
  | zero => rfl
  | succ steps ih => exact ih m.step.1 (elapsed + m.step.2)

/-- What a function of single steps gives for a number of them. -/
def gather (f : Machine → List Source) (m : Machine) : Nat → List Source
  | 0 => []
  | steps + 1 => f m ++ m.step.1.gather f steps

end Machine

/-- The sources that an act asks service for. -/
def Act.raised (m : Machine) : Act → List Source
  | step => m.stepRaised
  | runFor cycles => m.gather Machine.stepRaised (m.stepsFor cycles.toNat)
  | stepTimer0 => m.timer0.stepRaised m.ram
  | stepTimer1 => m.timer1.stepRaised m.ram
  | tickTimer0 => m.timer0.tickRaised m.ram
  | tickTimer1 => m.timer1.tickRaised m.ram
  | raise s => [s]
  | _ => []

def Act.served (m : Machine) : Act → List Source
  | step => m.stepServed.toList
  | runFor cycles => m.gather (·.stepServed.toList) (m.stepsFor cycles.toNat)
  | poll => m.poll.2.toList
  | _ => []

namespace Machine

def raised (m : Machine) : List Act → List Source
  | [] => []
  | a :: acts => a.raised m ++ (a.run m).raised acts

def served (m : Machine) : List Act → List Source
  | [] => []
  | a :: acts => a.served m ++ (a.run m).served acts

end Machine

end VisualMemory
