import VisualMemory.Proofs.Ram
import VisualMemory.Proofs.Timer.Counting

/-!
# Timers under one setting

A timer is clocked again and again while a program is at work. Before each clock the program may have
written anywhere, so each clock sees a memory of its own. If only the setting of the timer is always
the same, that decides what it counts.

* `Setting`: what a program sets up in a timer's registers. `Timer.setting`: the one in a memory.
* `Timer.after`, `Timer.clock`: the timer after a number of clocks, and what the next one does.
* `control_tick`: the control register after a clock. `stopped_tick`: the timer after one that sees
  both halves stopped.
* `reports_of_long`: what a clock reports in long mode.
* `start_after_le`, `high_after_le`: the counts stay bytes.
-/

namespace VisualMemory.Timer

open Interrupt (Controller)

/-- What a program sets up in the registers of a timer: the bits for run, mode and interrupts, and
the reload registers. The overflow flags are no part of it, and neither is the clock bit. -/
structure Setting where
  highRun : Bool
  lowRun : Bool
  longMode : Bool
  highIrqEnable : Bool
  lowIrqEnable : Bool
  reloads : Reloads
  deriving DecidableEq

def setting (t : Timer) (ram : Ram) : Setting :=
  let c := t.control ram
  { highRun := c.highRun
    lowRun := c.lowRun
    longMode := c.longMode
    highIrqEnable := c.highIrqEnable
    lowIrqEnable := c.lowIrqEnable
    reloads := t.reloads ram }

/-- The timer after `k` clocks; the next clock sees the memory `seen k`. -/
def after (t : Timer) (seen : Nat → Ram) : Nat → Timer
  | 0 => t
  | k + 1 => ((t.after seen k).tick (seen k) {}).timer

def clock (t : Timer) (seen : Nat → Ram) (k : Nat) : Tick :=
  .of (t.control (seen k)) (t.reloads (seen k)) (t.after seen k).low (t.after seen k).high

/-- A memory in which only these registers of a timer are set. -/
def memoryOf (l : Layout) (control : UInt8) (r : Reloads) : Ram :=
  (((({} : Ram).write l.control.toNat control).write l.lowReload.toNat r.low).write
    l.highReload.toNat r.high).write l.cascadeReload.toNat r.cascade

/-- What the clocks see while a program clears the overflow flags before all but every third. -/
def clearingFlags (l : Layout) (control : UInt8) (r : Reloads) (k : Nat) : Ram :=
  memoryOf l (if 3 ∣ k then control ||| 0x0A else control) r

/-! ## Clocks -/

theorem Control.ofByte_toByte (c : Control) : ofByte c.toByte = c := by
  obtain ⟨c7, c6, c5, c4, c3, c2, c1, c0⟩ := c
  revert c7 c6 c5 c4 c3 c2 c1 c0
  decide +kernel

theorem exists_control_register {t : Timer} (hl : t.layout = .timer0 ∨ t.layout = .timer1) :
    ∃ i : Fin 128, t.layout.control.toNat = 0x100 + i.val := by
  rcases hl with hl | hl
  · exact ⟨0x10, by rw [hl]; rfl⟩
  · exact ⟨0x18, by rw [hl]; rfl⟩

theorem control_tick {t : Timer} (hl : t.layout = .timer0 ∨ t.layout = .timer1) (ram : Ram)
    (c : Controller) : t.control (t.tick ram c).ram =
      (Tick.of (t.control ram) (t.reloads ram) t.low t.high).control (t.control ram) := by
  obtain ⟨i, hi⟩ := exists_control_register hl
  conv_lhs => rw [control]
  rw [tick, report, Ram.readRaw_latchCounter, Ram.readRaw_latchCounter, hi,
    Ram.readRaw_write_register, Control.ofByte_toByte]

/-- A clock that sees both halves stopped leaves them ready to start from their reload values. -/
theorem stopped_tick (t : Timer) (ram : Ram) (c : Controller)
    (hlow : (t.control ram).lowRun = false) (hhigh : (t.control ram).highRun = false) :
    (t.tick ram c).timer.low.clocks = 0 ∧
      (t.tick ram c).timer.high.count = (t.reloads ram).high.toUInt16 :=
  Tick.stopped hlow hhigh

section

variable {t : Timer} (seen : Nat → Ram) (k : Nat)

theorem layout_after : (t.after seen k).layout = t.layout := by
  induction k with
  | zero => rfl
  | succ k ih => exact ih

theorem control_after : (t.after seen k).control = t.control := by
  funext ram
  rw [control, control, layout_after]

theorem reloads_after : (t.after seen k).reloads = t.reloads := by
  funext ram
  rw [reloads, reloads, layout_after]

theorem low_after_succ : (t.after seen (k + 1)).low = (t.clock seen k).low := by
  rw [clock, ← control_after seen k, ← reloads_after seen k]
  rfl

theorem high_after_succ : (t.after seen (k + 1)).high = (t.clock seen k).high := by
  rw [clock, ← control_after seen k, ← reloads_after seen k]
  rfl

theorem interrupts_after (c : Controller) : ((t.after seen k).tick (seen k) c).interrupts =
    (t.requests (t.control (seen k)) (t.clock seen k)).foldl (·.raise ·) c := by
  rw [requests, clock, ← layout_after seen k, ← control_after seen k, ← reloads_after seen k]
  rfl

theorem clock_eq {s : Setting} (h : t.setting (seen k) = s) : t.clock seen k =
    .of (t.control (seen k)) s.reloads (t.after seen k).low (t.after seen k).high := by
  rw [clock, ← h]
  rfl

theorem start_after_succ (hrun : (t.control (seen k)).lowRun = true) (reload : UInt8) :
    (t.after seen (k + 1)).low.start reload = (t.clock seen k).low.count := by
  rw [low_after_succ]
  exact Tick.start_of hrun reload

/-- The count from which the low half goes on is a byte, however many clocks there have been. -/
theorem start_after_le (h : t.low.clocks = 0 ∨ t.low.count ≤ 0xFF) (reload : UInt8) :
    (t.after seen k).low.start reload ≤ 0xFF := by
  cases k with
  | zero => exact Half.start_le h reload
  | succ k =>
    rw [low_after_succ]
    exact Half.start_le (.inr (Tick.low_count_le ..)) reload

theorem high_after_le (h : t.high.count ≤ 0xFF) : (t.after seen k).high.count ≤ 0xFF := by
  cases k with
  | zero => exact h
  | succ k =>
    rw [high_after_succ]
    exact Tick.high_count_le ..

variable (hl : t.layout = .timer0 ∨ t.layout = .timer1)

include hl

theorem control_ram_after (c : Controller) :
    t.control ((t.after seen k).tick (seen k) c).ram =
      (t.clock seen k).control (t.control (seen k)) := by
  have hl' : (t.after seen k).layout = .timer0 ∨ (t.after seen k).layout = .timer1 := by
    rw [layout_after]
    exact hl
  rw [clock, ← control_after seen k, control_tick hl', reloads_after, control_after]

/-- In long mode the end of the high half is recorded in both flags, and the high source is the only
one that is ever asked for. -/
theorem reports_of_long {s : Setting} (hseen : t.setting (seen k) = s) (hlong : s.longMode = true)
    {ended : Prop} [Decidable ended] (hended : (t.clock seen k).highOverflow = decide ended)
    (c : Controller) :
    let before := t.control (seen k)
    let o := (t.after seen k).tick (seen k) c
    t.control o.ram = { before with
      lowOverflow := before.lowOverflow || decide ended
      highOverflow := before.highOverflow || decide ended } ∧
    o.interrupts =
      (if ended ∧ s.highIrqEnable = true then c.raise t.layout.highSource else c) := by
  intro before o
  have hlong : before.longMode = true := (congrArg Setting.longMode hseen).trans hlong
  have hirq : before.highIrqEnable = s.highIrqEnable := congrArg Setting.highIrqEnable hseen
  have hlow : (t.clock seen k).lowOverflow = false := Tick.lowOverflow_chained hlong
  constructor
  · rw [control_ram_after seen k hl, Tick.control, hlow, hended, hlong, Bool.or_false, Bool.and_true]
  · rw [interrupts_after, requests, hlow, hended, hirq, Bool.false_and, if_neg Bool.false_ne_true,
      List.nil_append]
    simp only [Bool.and_eq_true, decide_eq_true_eq]
    split
    · rfl
    · rfl

end

end VisualMemory.Timer
