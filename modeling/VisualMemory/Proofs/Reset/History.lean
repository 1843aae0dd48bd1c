import VisualMemory.Proofs.Program.Footprint
import VisualMemory.Proofs.Reset.Twin
import VisualMemory.Proofs.Timer.Sound

/-!
# What a reset leaves of the past

A cold reset clears the registers, the latches, the controller and the processor, and keeps the
memories. It does not reach the timers: a low half that runs goes on running, and the high halves
and the divider keep their counts. Machines that agree in this, and in their memories, go on alike.

* `Machine.Renewed`: a reset has just been served, or the machine has just been built.
* `reset_erases_history`: what follows is decided by memories and timers.
* `reset_leaves_timers_running`: by the memories alone it is not.
-/

namespace VisualMemory

/-! ## Renewed machines -/

namespace Machine

/-- The machine with other contents in main RAM and XRAM. -/
def withMemory (m : Machine) (main : Vector UInt8 512) (xram : Vector UInt8 384) : Machine :=
  { m with ram := { m.ram with main, xram } }

/-- The machine has just served a reset at the end of a step; or it has just been built, starts at
address 0 and has some contents in main RAM and XRAM. -/
inductive Renewed : Machine → Prop
  | served {m : Machine} (h : Reachable m) (hs : m.stepServed = some .reset) : Renewed m.step.1
  | built {bios flash : Array UInt8} {config : Config} {journal : Journal} {m : Machine}
      (h : boot bios flash config journal = .ok m) (hpc : m.cpu.pc = 0)
      (main : Vector UInt8 512) (xram : Vector UInt8 384) : Renewed (m.withMemory main xram)

/-- The machines have the same memories and the same start setting. -/
structure SameMemories (m n : Machine) : Prop where
  rom : m.rom = n.rom
  flash : m.flash = n.flash
  main : m.ram.main = n.ram.main
  xram : m.ram.xram = n.ram.xram
  direct : m.cpu.direct = n.cpu.direct

theorem resetRegisters_reset (m : Machine) : m.reset.ram.resetRegisters = m.ram.resetRegisters := by
  have hmain : m.reset.ram.main = m.ram.main := rfl
  have hxram : m.reset.ram.xram = m.ram.xram := rfl
  rw [Ram.resetRegisters, Ram.resetRegisters, hmain, hxram]

theorem reset_reset (m : Machine) : m.reset.reset = m.reset := by
  have h := resetRegisters_reset m
  show Machine.mk _ _ _ _ _ _ _ _ _ _ = Machine.mk _ _ _ _ _ _ _ _ _ _
  rw [h]
  rfl

/-- A reset keeps the memories, so it does not matter when they are filled. -/
theorem withMemory_reset (m : Machine) (main : Vector UInt8 512) (xram : Vector UInt8 384) :
    m.reset.withMemory main xram = (m.withMemory main xram).reset :=
  rfl

theorem directBoot_zero (m : Machine) :
    m.directBoot 0 = (m.note (.directBoot 0 m.initialBank)).reset :=
  rfl

namespace Renewed

variable {m n : Machine}

theorem reset_eq (h : m.Renewed) : m.reset = m := by
  cases h with
  | @served k _ hs =>
    show (k.advance.1.poll.1).reset = k.advance.1.poll.1
    rcases poll_cases k.advance.1 with ⟨-, hp⟩ | ⟨s, -, hp⟩
    · rw [stepServed, hp] at hs
      cases hs
    · rw [stepServed, hp] at hs
      cases hs
      rw [hp]
      exact reset_reset _
  | @built _ _ config _ _ h hpc main xram =>
    obtain ⟨rom, chip, -, -, rfl⟩ := boot_eq_ok h
    split at hpc
    · rename_i hdirect
      have hentry : config.entry = 0 := hpc
      rw [if_pos hdirect, hentry, directBoot_zero, withMemory_reset]
      exact reset_reset _
    · rename_i hdirect
      rw [if_neg hdirect, withMemory_reset]
      exact reset_reset _

theorem wired (h : m.Renewed) : m.Wired := by
  cases h with
  | served h => exact h.wired.step
  | built h =>
    have hw := (Reachable.boot h).wired
    exact ⟨hw.timer0, hw.timer1⟩

/-- Renewed machines with the same memories and with timers that agree are twins. -/
theorem twin (hm : m.Renewed) (hn : n.Renewed) (h : m.SameMemories n)
    (h0 : m.timer0.Alike n.timer0) (h1 : m.timer1.Alike n.timer1) :
    Twin (m.buzzer.period = n.buzzer.period) m n where
  same := by
    have hcleared : n.ram.resetRegisters = m.ram.resetRegisters := by
      rw [Ram.resetRegisters, Ram.resetRegisters, h.main, h.xram]
    have hbank : n.initialBank = m.initialBank := by rw [initialBank, initialBank, h.direct]
    rw [← hm.reset_eq, ← hn.reset_eq]
    show n.reset = m.reset.put n.aside
    unfold reset
    rw [hcleared, hbank, ← h.rom, ← h.flash, ← h.direct]
    rfl
  timer0 := h0.twin hm.wired.timer0 hn.wired.timer0
  timer1 := h1.twin hm.wired.timer1 hn.wired.timer1
  period := id

end Renewed
end Machine

/-! ## What follows a reset -/

/-- **A reset erases the past, except that of the timers.** Take two machines that have just served
a reset at the end of a step, or have just been built, with the same memories and the same start
setting, whatever their registers, service routines, queues and requests were. If their timers agree
in divider, high counts and running low halves, then after any acts the next step takes the same
time, serves the same source, and leaves the same program counter, the same registers and memories
and the buzzer on or off alike; and its period is the same if it was. -/
theorem reset_erases_history {m n : Machine} (hm : m.Renewed) (hn : n.Renewed)
    (hmem : m.SameMemories n) (h0 : m.timer0.Alike n.timer0) (h1 : m.timer1.Alike n.timer1)
    (acts : List Act) :
    let m' := m.runActs acts
    let n' := n.runActs acts
    m'.step.2 = n'.step.2 ∧ m'.stepServed = n'.stepServed ∧
    m'.step.1.cpu.pc = n'.step.1.cpu.pc ∧
    (∀ address, m'.step.1.ram.read address = n'.step.1.ram.read address) ∧
    m'.step.1.ram = n'.step.1.ram ∧ m'.step.1.flash = n'.step.1.flash ∧
    m'.step.1.buzzer.enabled = n'.step.1.buzzer.enabled ∧
    (m.buzzer.period = n.buzzer.period →
      m'.step.1.buzzer.period = n'.step.1.buzzer.period) := by
  intro m' n'
  have htwin := (hm.twin hn hmem h0 h1).runActs acts
  have hram := htwin.step.same.ram_eq
  exact ⟨htwin.step_cycles, htwin.stepServed_eq, htwin.step.same.pc_eq,
    fun address => congrArg (Ram.read · address) hram, hram, htwin.step.same.flash_eq,
    htwin.enabled_step (hm.wired.runActs acts).timer1, htwin.step.period⟩

/-- A firmware that starts the low half of timer 1 and then stays where it is. -/
def timerFirmware : Machine :=
  .cold #[0x23, 0x18, 0x40, 0x01, 0xFE] (by decide)

/-- The firmware about to be reset in its first step, in a machine that has a past: registers were
written, and an interrupt is let in and asked for. -/
def resetWithPast : Machine :=
  timerFirmware.runActs [.writeRam 0x108 0x80, .writeRam 0x118 0x05, .raise .int0, .raise .reset]

/-- The firmware about to be reset in its first step. -/
def resetAtOnce : Machine :=
  timerFirmware.runActs [.raise .reset]

/-- The firmware about to be reset in its second step, when the timer runs. -/
def resetWhileRunning : Machine :=
  timerFirmware.runActs [.step, .raise .reset]

theorem reachable_timerFirmware (acts : List Act) : Reachable (timerFirmware.runActs acts) :=
  (Reachable.cold (by decide) _).runActs acts

theorem flash_resetAtOnce : resetAtOnce.step.1.flash = timerFirmware.flash :=
  Machine.flash_step (by decide +kernel) (by decide +kernel)

theorem sameMemories_resetWithPast : resetWithPast.step.1.SameMemories resetAtOnce.step.1 where
  rom := by decide +kernel
  flash := by
    rw [flash_resetAtOnce]
    exact Machine.flash_step (by decide +kernel) (by decide +kernel)
  main := Vector.toList_inj.mp (by decide +kernel)
  xram := Vector.toList_inj.mp (by decide +kernel)
  direct := by decide +kernel

theorem reset_erases_history_of_registers :
    let acts : List Act := [.raise .p3, .step]
    resetWithPast.register Register.ie ≠ resetAtOnce.register Register.ie ∧
      (resetWithPast.step.1.runActs acts).step.1.cpu.pc =
        (resetAtOnce.step.1.runActs acts).step.1.cpu.pc ∧
      (resetWithPast.step.1.runActs acts).step.1.ram =
        (resetAtOnce.step.1.runActs acts).step.1.ram := by
  intro acts
  have hm : resetWithPast.step.1.Renewed :=
    .served (reachable_timerFirmware _) (by decide +kernel)
  have hn : resetAtOnce.step.1.Renewed :=
    .served (reachable_timerFirmware _) (by decide +kernel)
  have h0 : resetWithPast.step.1.timer0.Alike resetAtOnce.step.1.timer0 :=
    ⟨by decide +kernel, ⟨by decide +kernel, by decide +kernel⟩, by decide +kernel⟩
  have h1 : resetWithPast.step.1.timer1.Alike resetAtOnce.step.1.timer1 :=
    ⟨by decide +kernel, ⟨by decide +kernel, by decide +kernel⟩, by decide +kernel⟩
  have h := reset_erases_history hm hn sameMemories_resetWithPast h0 h1 acts
  exact ⟨by decide +kernel, h.2.2.1, h.2.2.2.2.1⟩

theorem sameMemories_resetWhileRunning :
    resetWhileRunning.step.1.SameMemories resetAtOnce.step.1 where
  rom := by decide +kernel
  flash := by
    have hfirst : timerFirmware.step.1.flash = timerFirmware.flash :=
      Machine.flash_step (by decide +kernel) (by decide +kernel)
    rw [flash_resetAtOnce, ← hfirst]
    exact Machine.flash_step (by decide +kernel) (by decide +kernel)
  main := Vector.toList_inj.mp (by decide +kernel)
  xram := Vector.toList_inj.mp (by decide +kernel)
  direct := by decide +kernel

/-- Equal memories are not enough. A timer that runs is still running after a reset, so the
firmware, when it starts the timer again, does not start it from its reload value: the count is
another than in a machine that was reset at once, and another than in one that has just been
built. -/
theorem reset_leaves_timers_running :
    Reachable resetWhileRunning ∧ Reachable resetAtOnce ∧
      resetWhileRunning.stepServed = some .reset ∧ resetAtOnce.stepServed = some .reset ∧
      resetWhileRunning.step.1.SameMemories resetAtOnce.step.1 ∧
      resetWhileRunning.step.1.step.1.register Register.t1l = 6 ∧
      resetAtOnce.step.1.step.1.register Register.t1l = 4 ∧
      timerFirmware.step.1.register Register.t1l = 2 :=
  ⟨reachable_timerFirmware _, reachable_timerFirmware _, by decide +kernel, by decide +kernel,
    sameMemories_resetWhileRunning, by decide +kernel, by decide +kernel, by decide +kernel⟩

end VisualMemory
