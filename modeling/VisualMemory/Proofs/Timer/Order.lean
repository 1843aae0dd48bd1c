import Mathlib.Logic.Function.Iterate
import VisualMemory.Proofs.Act
import VisualMemory.Proofs.Buzzer
import VisualMemory.Proofs.Frame
import VisualMemory.Proofs.Interrupt.Controller
import VisualMemory.Proofs.Timer.Alike

/-!
# The order of the timers

Both timers change the same RAM and the same pending word, and timer 1 reads a register of timer 0.
Still it does not matter which of them has its cycle first: no control register is read by the other
timer, the counters of the two are latched apart, and requests only add up.

* `Timer.stepOn`: a cycle that looks at one memory and changes another. `Timer.SeesSame`: to a timer
  two memories look the same.
* `report_comm`, `stepOn_comm`, `Controller.foldl_raise_comm`: the two timers' changes commute.
* `Clocks`, `WiredClocks`: the timers with all that they share, and a cycle of each as a function on
  it; `WiredClocks.commute`.
* `timers_order_independent`: what that says about a machine, for one cycle and for many.
-/

namespace VisualMemory

open Interrupt (Source Controller)

/-! ## Requests -/

theorem Interrupt.Controller.raise_comm (c : Controller) (s t : Source) :
    (c.raise s).raise t = (c.raise t).raise s := by
  apply congrArg Controller.mk
  show c.word ||| mask s ||| mask t = c.word ||| mask t ||| mask s
  rw [UInt16.or_assoc, UInt16.or_comm (mask s), ← UInt16.or_assoc]

/-- It does not matter who asks first. -/
theorem Interrupt.Controller.foldl_raise_comm (c : Controller) (l l' : List Source) :
    l'.foldl (·.raise ·) (l.foldl (·.raise ·) c) =
      l.foldl (·.raise ·) (l'.foldl (·.raise ·) c) := by
  rw [← List.foldl_append, ← List.foldl_append]
  exact List.perm_append_comm.foldl_eq' (fun s _ t _ c => raise_comm c s t) c

/-! ## Looking and changing -/

namespace Timer

variable (t : Timer) (seen ram : Ram) (c : Controller)

def fires : Bool :=
  match t.prescaler with
  | none => true
  | some p => (p.step (seen.readRaw Register.t0prr.toNat)).2

/-- The timer with the cycle counted by its divider. -/
def divided : Timer :=
  { t with prescaler := t.prescaler.map fun p => (p.step (seen.readRaw Register.t0prr.toNat)).1 }

/-- A cycle of the timer that looks at one memory and changes another. -/
def stepOn : Outcome :=
  let k := Tick.of (t.control seen) (t.reloads seen) t.low t.high
  if t.fires seen then
    { timer := { t.divided seen with low := k.low, high := k.high }
      ram := t.report (t.control seen) k ram
      interrupts := (t.requests (t.control seen) k).foldl (·.raise ·) c
      signals := t.signals (t.control seen) k }
  else { timer := t.divided seen, ram, interrupts := c, signals := [] }

theorem step_eq_stepOn : t.step ram c = t.stepOn ram ram c := by
  unfold step stepOn fires divided
  cases hp : t.prescaler with
  | none =>
    show t.tick ram c = _
    rw [if_pos rfl, tick, hp]
    rfl
  | some p =>
    dsimp only
    split
    · rfl
    · rfl

/-- The memories agree in the registers that a cycle of the timer reads. -/
structure SeesSame (t : Timer) (ram ram' : Ram) : Prop where
  control : ram'.readRaw t.layout.control.toNat = ram.readRaw t.layout.control.toNat
  low : ram'.readRaw t.layout.lowReload.toNat = ram.readRaw t.layout.lowReload.toNat
  high : ram'.readRaw t.layout.highReload.toNat = ram.readRaw t.layout.highReload.toNat
  cascade : ram'.readRaw t.layout.cascadeReload.toNat = ram.readRaw t.layout.cascadeReload.toNat
  divider : ram'.readRaw Register.t0prr.toNat = ram.readRaw Register.t0prr.toNat

theorem SeesSame.stepOn {t : Timer} {seen seen' : Ram} (h : t.SeesSame seen seen') :
    t.stepOn seen' = t.stepOn seen := by
  have hcontrol : t.control seen' = t.control seen := by rw [Timer.control, Timer.control, h.control]
  have hreloads : t.reloads seen' = t.reloads seen := by
    rw [reloads, reloads, h.low, h.high, h.cascade]
  have hfires : t.fires seen' = t.fires seen := by rw [fires, fires, h.divider]
  have hdivided : t.divided seen' = t.divided seen := by rw [divided, divided, h.divider]
  funext ram c
  rw [Timer.stepOn, Timer.stepOn, hcontrol, hreloads, hfires, hdivided]

theorem stepOn_timer (ram' : Ram) (c' : Controller) :
    (t.stepOn seen ram' c').timer = (t.stepOn seen ram c).timer := by
  unfold stepOn
  split
  · rfl
  · rfl

theorem stepOn_signals (ram' : Ram) (c' : Controller) :
    (t.stepOn seen ram' c').signals = (t.stepOn seen ram c).signals := by
  unfold stepOn
  split
  · rfl
  · rfl

/-! ## The two timers -/

theorem readRaw_report {i j : Fin 128} (hl : t.layout.control.toNat = 0x100 + i.val) (h : i ≠ j)
    (ct : Control) (k : Tick) :
    (t.report ct k ram).readRaw (0x100 + j.val) = ram.readRaw (0x100 + j.val) := by
  rw [report, Ram.readRaw_latchCounter, Ram.readRaw_latchCounter, hl, Ram.readRaw_write_of_ne h]

theorem readRaw_stepOn {i j : Fin 128} (hl : t.layout.control.toNat = 0x100 + i.val) (h : i ≠ j) :
    (t.stepOn seen ram c).ram.readRaw (0x100 + j.val) = ram.readRaw (0x100 + j.val) := by
  unfold stepOn
  split
  · exact readRaw_report t ram hl h _ _
  · rfl

section

variable {t u : Timer} (ht : t.layout = .timer0) (hu : u.layout = .timer1)

include ht hu

/-- Timer 0 looks at no register that timer 1 writes to. -/
theorem sees_of_timer1 : t.SeesSame ram (u.stepOn seen ram c).ram := by
  have hl : u.layout.control.toNat = 0x100 + (0x18 : Fin 128).val := by rw [hu]; rfl
  have hread {j : Fin 128} (h : 0x18 ≠ j) := readRaw_stepOn u seen ram c hl h
  constructor
  · rw [ht]; exact hread (j := 0x10) (by decide)
  · rw [ht]; exact hread (j := 0x13) (by decide)
  · rw [ht]; exact hread (j := 0x15) (by decide)
  · rw [ht]; exact hread (j := 0x13) (by decide)
  · exact hread (j := 0x11) (by decide)

/-- Timer 1 looks at a reload register of timer 0, but at none that timer 0 writes to. -/
theorem sees_of_timer0 : u.SeesSame ram (t.stepOn seen ram c).ram := by
  have hl : t.layout.control.toNat = 0x100 + (0x10 : Fin 128).val := by rw [ht]; rfl
  have hread {j : Fin 128} (h : 0x10 ≠ j) := readRaw_stepOn t seen ram c hl h
  constructor
  · rw [hu]; exact hread (j := 0x18) (by decide)
  · rw [hu]; exact hread (j := 0x1B) (by decide)
  · rw [hu]; exact hread (j := 0x1D) (by decide)
  · rw [hu]; exact hread (j := 0x13) (by decide)
  · exact hread (j := 0x11) (by decide)

theorem report_comm (ct cu : Control) (k l : Tick) :
    u.report cu l (t.report ct k ram) = t.report ct k (u.report cu l ram) := by
  have hreport0 (r : Ram) : t.report ct k r =
      { r with
        registers := r.registers.set 0x10 (k.control ct).toByte
        latches := (r.latches.set 0x12 (some k.low.count.toUInt8)).set 0x14
          (some k.high.count.toUInt8) } := by
    rw [report, ht]
    rfl
  have hreport1 (r : Ram) : u.report cu l r =
      { r with
        registers := r.registers.set 0x18 (l.control cu).toByte
        latches := (r.latches.set 0x1B (some l.low.count.toUInt8)).set 0x1D
          (some l.high.count.toUInt8) } := by
    rw [report, hu]
    rfl
  rw [hreport0, hreport1, hreport1, hreport0]
  dsimp only
  congr 1
  · exact Vector.set_comm _ _ (by decide)
  · rw [Vector.set_comm (i := 0x14) (j := 0x1B), Vector.set_comm (i := 0x12) (j := 0x1B),
      Vector.set_comm (i := 0x14) (j := 0x1D), Vector.set_comm (i := 0x12) (j := 0x1D)]
    all_goals decide

/-- The changes of the two timers commute. -/
theorem stepOn_comm :
    (u.stepOn seen (t.stepOn seen ram c).ram (t.stepOn seen ram c).interrupts).ram =
      (t.stepOn seen (u.stepOn seen ram c).ram (u.stepOn seen ram c).interrupts).ram ∧
    (u.stepOn seen (t.stepOn seen ram c).ram (t.stepOn seen ram c).interrupts).interrupts =
      (t.stepOn seen (u.stepOn seen ram c).ram (u.stepOn seen ram c).interrupts).interrupts := by
  unfold stepOn
  cases t.fires seen with
  | false => cases u.fires seen <;> exact ⟨rfl, rfl⟩
  | true =>
    cases u.fires seen with
    | false => exact ⟨rfl, rfl⟩
    | true => exact ⟨report_comm ram ht hu _ _ _ _, Controller.foldl_raise_comm ..⟩

end

/-- A timer that is not wired to the buzzer leaves it alone. -/
theorem foldl_hear_signals {t : Timer} (h : t.drivesBuzzer = false) (seen ram : Ram)
    (c : Controller) (b : Buzzer) : (t.stepOn seen ram c).signals.foldl Buzzer.hear b = b := by
  unfold stepOn
  split
  · rw [hear_signals, h]
    rfl
  · rfl

end Timer

/-! ## A cycle of each as a function -/

/-- The timers with all that they share. -/
structure Clocks where
  timer0 : Timer
  timer1 : Timer
  ram : Ram
  interrupts : Controller
  buzzer : Buzzer

namespace Clocks

def step0 (k : Clocks) : Clocks :=
  let o := k.timer0.step k.ram k.interrupts
  { k with
    timer0 := o.timer, ram := o.ram, interrupts := o.interrupts
    buzzer := o.signals.foldl Buzzer.hear k.buzzer }

def step1 (k : Clocks) : Clocks :=
  let o := k.timer1.step k.ram k.interrupts
  { k with
    timer1 := o.timer, ram := o.ram, interrupts := o.interrupts
    buzzer := o.signals.foldl Buzzer.hear k.buzzer }

end Clocks

/-- Timers that are wired as those of a machine. -/
structure WiredClocks extends Clocks where
  wired0 : timer0.WiredAs .zero
  wired1 : timer1.WiredAs .one

namespace WiredClocks

theorem ext {k l : WiredClocks} (h : k.toClocks = l.toClocks) : k = l := by
  cases k
  cases l
  cases h
  rfl

def step0 (k : WiredClocks) : WiredClocks where
  toClocks := k.toClocks.step0
  wired0 := k.wired0.step ..
  wired1 := k.wired1

def step1 (k : WiredClocks) : WiredClocks where
  toClocks := k.toClocks.step1
  wired0 := k.wired0
  wired1 := k.wired1.step ..

theorem commute : Function.Commute step1 step0 := by
  intro k
  apply ext
  obtain ⟨⟨t, u, ram, c, b⟩, ht, hu⟩ := k
  have hsees0 := (Timer.sees_of_timer1 ram ram c ht.layout hu.layout).stepOn
  have hsees1 := (Timer.sees_of_timer0 ram ram c ht.layout hu.layout).stepOn
  obtain ⟨hram, hinterrupts⟩ := Timer.stepOn_comm ram ram c ht.layout hu.layout
  simp only [step0, step1, Clocks.step0, Clocks.step1, Timer.step_eq_stepOn, hsees0, hsees1,
    Clocks.mk.injEq]
  refine ⟨?_, ?_, hram, hinterrupts, ?_⟩
  · exact Timer.stepOn_timer ..
  · exact Timer.stepOn_timer ..
  · rw [Timer.foldl_hear_signals ht.drivesBuzzer, Timer.foldl_hear_signals ht.drivesBuzzer]
    exact congrArg (List.foldl Buzzer.hear b) (Timer.stepOn_signals ..)

end WiredClocks

/-! ## Machines -/

namespace Machine

def clocks (m : Machine) : Clocks :=
  ⟨m.timer0, m.timer1, m.ram, m.interrupts, m.buzzer⟩

theorem clocks_stepTimer0 : Function.Semiconj clocks stepTimer0 Clocks.step0 := by
  intro m
  rw [clocks, stepTimer0, takeTimer0_timer0, takeTimer0_timer1, takeTimer0_ram,
    takeTimer0_interrupts, takeTimer0_buzzer]
  rfl

theorem clocks_stepTimer1 : Function.Semiconj clocks stepTimer1 Clocks.step1 := by
  intro m
  rw [clocks, stepTimer1, takeTimer1_timer0, takeTimer1_timer1, takeTimer1_ram,
    takeTimer1_interrupts, takeTimer1_buzzer]
  rfl

theorem elapse_eq_iterate (m : Machine) (cycles : Nat) :
    m.elapse cycles = (stepTimer1 ∘ stepTimer0)^[cycles] m := by
  induction cycles generalizing m with
  | zero => rfl
  | succ cycles ih => exact ih _

theorem clocks_elapse {m : Machine} (h0 : m.timer0.WiredAs .zero) (h1 : m.timer1.WiredAs .one)
    (cycles : Nat) :
    (m.elapse cycles).clocks = (stepTimer1^[cycles] (stepTimer0^[cycles] m)).clocks := by
  -- The cycles commute only in timers that are wired as these, so the exchange happens in `k`.
  let k : WiredClocks := ⟨m.clocks, h0, h1⟩
  have hwired0 : Function.Semiconj WiredClocks.toClocks WiredClocks.step0 Clocks.step0 :=
    fun _ => rfl
  have hwired1 : Function.Semiconj WiredClocks.toClocks WiredClocks.step1 Clocks.step1 :=
    fun _ => rfl
  calc
    (m.elapse cycles).clocks
      = (Clocks.step1 ∘ Clocks.step0)^[cycles] m.clocks := by
        rw [elapse_eq_iterate]
        exact (clocks_stepTimer1.comp_right clocks_stepTimer0).iterate_right cycles m
    _ = ((WiredClocks.step1 ∘ WiredClocks.step0)^[cycles] k).toClocks :=
        ((hwired1.comp_right hwired0).iterate_right cycles k).symm
    _ = (WiredClocks.step1^[cycles] (WiredClocks.step0^[cycles] k)).toClocks := by
        rw [WiredClocks.commute.comp_iterate]
        rfl
    _ = Clocks.step1^[cycles] (Clocks.step0^[cycles] m.clocks) := by
        rw [hwired1.iterate_right, hwired0.iterate_right]
    _ = (stepTimer1^[cycles] (stepTimer0^[cycles] m)).clocks := by
        rw [clocks_stepTimer1.iterate_right, clocks_stepTimer0.iterate_right]

end Machine

/-- **The order of the timers does not matter.** Whatever the timers' counters and dividers and
whatever is in RAM and in the controller, a cycle of timer 0 and then one of timer 1 lead to the same
RAM and latches, the same requests, the same buzzer and the same timers as the other way around. So
any number of cycles side by side are as many of timer 0 and then as many of timer 1. -/
theorem timers_order_independent {m : Machine} (h0 : m.timer0.WiredAs .zero)
    (h1 : m.timer1.WiredAs .one) :
    m.stepTimer0.stepTimer1.clocks = m.stepTimer1.stepTimer0.clocks ∧
    ∀ cycles, (m.elapse cycles).clocks =
      (Machine.stepTimer1^[cycles] (Machine.stepTimer0^[cycles] m)).clocks := by
  refine ⟨?_, Machine.clocks_elapse h0 h1⟩
  let k : WiredClocks := ⟨m.clocks, h0, h1⟩
  calc
    m.stepTimer0.stepTimer1.clocks
      = k.step0.step1.toClocks := by rw [Machine.clocks_stepTimer1, Machine.clocks_stepTimer0]; rfl
    _ = k.step1.step0.toClocks := congrArg WiredClocks.toClocks (WiredClocks.commute k)
    _ = m.stepTimer1.stepTimer0.clocks := by
        rw [Machine.clocks_stepTimer0, Machine.clocks_stepTimer1]; rfl

/-- Both timers overflow in the next cycle: timer 0 in both halves, and timer 1, whose halves are
chained, in the low one, which restarts from a register of timer 0. -/
def bothOverflow : Machine :=
  { Machine.idling.runActs
      [.writeRam 0x110 0xC5, .writeRam 0x113 0x40, .writeRam 0x118 0xE5, .writeRam 0x11B 0x10] with
    timer0 := { Timer.zero with prescaler := some ⟨0xFF⟩, low := ⟨0xFF, 1⟩, high := ⟨0xFF, 1⟩ }
    timer1 := { Timer.one with low := ⟨0xFF, 1⟩, high := ⟨0xFE, 1⟩ } }

theorem timers_order_independent_overflow :
    bothOverflow.stepTimer0.stepTimer1.clocks = bothOverflow.stepTimer1.stepTimer0.clocks ∧
      (bothOverflow.elapse 3).clocks =
        (Machine.stepTimer1^[3] (Machine.stepTimer0^[3] bothOverflow)).clocks ∧
      bothOverflow.stepTimer1.timer1.low.count = 0x40 ∧
      bothOverflow.stepTimer0.interrupts.pending = [.int2, .t0hov] :=
  have h := timers_order_independent (m := bothOverflow) ⟨rfl, rfl, rfl⟩ ⟨rfl, rfl, rfl⟩
  ⟨h.1, h.2 3, by decide +kernel, by decide +kernel⟩

end VisualMemory
