import VisualMemory.Timer.Basic

/-!
# Timers that go on alike

A timer's counters are read again from its registers in many situations, but not in all: a half that
runs goes on from its count, a high half that is started does so too, and the divider always does.
Two timers whose state agrees in what is not read again behave alike from then on.

* `Timer.Alike`: that agreement. `Timer.Twin`: with the same wiring besides.
* `Twin.tick`, `Twin.step`: twins do the same to RAM and controller, send the same signals, and stay
  twins.
-/

namespace VisualMemory.Timer

open Interrupt (Controller)

/-! ## Halves -/

structure Half.Alike (h h' : Half) : Prop where
  clocks : h.clocks = 0 ↔ h'.clocks = 0
  count : h.clocks ≠ 0 → h.count = h'.count

theorem Half.isOver_congr {h h' : Half} (hc : h.count = h'.count) : h.isOver = h'.isOver := by
  rw [isOver, isOver, hc]

theorem Half.nextClock_ne_zero (h : Half) : h.nextClock ≠ 0 := by
  unfold nextClock
  split
  · rename_i hmax
    rw [hmax]
    decide
  · rename_i hne
    intro hzero
    apply hne
    calc
      h.clocks = h.clocks + 1 - 1 := (UInt32.add_sub_cancel ..).symm
      _ = 0 - 1 := by rw [hzero]
      _ = 0xFFFFFFFF := by decide

/-! ## Clocks -/

/-- Two clocks with the same outcome, but for how long a half has been running. -/
structure Tick.Alike (k k' : Tick) : Prop where
  low : k.low.count = k'.low.count
  clocks : k.low.clocks = 0 ↔ k'.low.clocks = 0
  high : k.high.count = k'.high.count
  started : k.started = k'.started
  lowOverflow : k.lowOverflow = k'.lowOverflow
  highOverflow : k.highOverflow = k'.highOverflow

namespace Tick

variable (c : Control) (r : Reloads) {low low' : Half}

theorem count_advanceLow (h : low.Alike low') :
    (advanceLow c r low).count = (advanceLow c r low').count := by
  unfold advanceLow
  split
  · by_cases hz : low.clocks = 0
    · rw [if_pos hz, if_pos (h.clocks.mp hz)]
    · rw [if_neg hz, if_neg fun hz' => hz (h.clocks.mpr hz'), h.count hz]
  · rfl

theorem clocks_advanceLow : (advanceLow c r low).clocks = 0 ↔ c.lowRun = false := by
  unfold advanceLow
  split
  · rename_i hrun
    simp only [hrun, low.nextClock_ne_zero, Bool.true_eq_false]
  · rename_i hrun
    simp only [Half.stopped, Bool.eq_false_iff.mpr hrun]

theorem count_advanceHigh {high high' : Half} (h : high.count = high'.count) :
    (advanceHigh c r high).count = (advanceHigh c r high').count := by
  unfold advanceHigh
  split
  · rw [h]
  · rfl

theorem count_carryInto (carry : Bool) {h h' : Half} (hc : h.count = h'.count) :
    (carryInto carry h).count = (carryInto carry h').count := by
  unfold carryInto
  split
  · exact congrArg (· + 1) hc
  · exact hc

theorem alike_of (h : low.Alike low') {high high' : Half} (hh : high.count = high'.count) :
    (of c r low high).Alike (of c r low' high') := by
  have hahead := count_advanceLow c r h
  have hclocks : (advanceLow c r low).clocks = 0 ↔ (advanceLow c r low').clocks = 0 := by
    rw [clocks_advanceLow, clocks_advanceLow]
  have hlowOver := Half.isOver_congr hahead
  have hhigh := count_carryInto ((advanceLow c r low').isOver && c.longMode)
    (count_advanceHigh c r hh)
  have hhighOver := Half.isOver_congr hhigh
  have hstill : (low.clocks == 0) = (low'.clocks == 0) := by
    rw [Bool.eq_iff_iff, beq_iff_eq, beq_iff_eq, h.clocks]
  constructor
  · simp only [of, hlowOver, hhighOver]
    split
    · rfl
    · split
      · rfl
      · exact hahead
  · simp only [of, hlowOver, hhighOver]
    split
    · exact hclocks
    · split
      · exact hclocks
      · exact hclocks
  · simp only [of, hlowOver, hhighOver]
    split
    · rfl
    · exact hhigh
  · simp only [of, hstill]
  · simp only [of, hlowOver]
  · simp only [of, hlowOver, hhighOver]

end Tick

/-! ## Timers -/

/-- Two timers agree in what they do not read again from their registers. -/
structure Alike (t t' : Timer) : Prop where
  prescaler : t.prescaler = t'.prescaler
  low : t.low.Alike t'.low
  high : t.high.count = t'.high.count

/-- The same timer, as far as anything can tell from now on. -/
structure Twin (t t' : Timer) : Prop extends Alike t t' where
  layout : t.layout = t'.layout
  drivesBuzzer : t.drivesBuzzer = t'.drivesBuzzer

/-- The same outcome, as far as anything can tell from now on. -/
structure Outcome.Twin (o o' : Outcome) : Prop where
  timer : o.timer.Twin o'.timer
  ram : o.ram = o'.ram
  interrupts : o.interrupts = o'.interrupts
  signals : o.signals = o'.signals

namespace Twin

variable {t t' : Timer} (h : t.Twin t') (ram : Ram) (c : Controller)

include h

theorem tick : (t.tick ram c).Twin (t'.tick ram c) := by
  have hcontrol : t'.control ram = t.control ram := by rw [control, control, h.layout]
  have hreloads : t'.reloads ram = t.reloads ram := by rw [reloads, reloads, h.layout]
  have hk := Tick.alike_of (t.control ram) (t.reloads ram) h.low h.high
  have hbyte : (Tick.of (t.control ram) (t.reloads ram) t'.low t'.high).control (t.control ram) =
      (Tick.of (t.control ram) (t.reloads ram) t.low t.high).control (t.control ram) := by
    rw [Tick.control, Tick.control, hk.lowOverflow, hk.highOverflow]
  constructor
  · simp only [Timer.tick, hcontrol, hreloads]
    exact ⟨⟨h.prescaler, ⟨hk.clocks, fun _ => hk.low⟩, hk.high⟩, h.layout, h.drivesBuzzer⟩
  · simp only [Timer.tick, report, hcontrol, hreloads, hbyte, hk.low, hk.high, h.layout]
  · simp only [Timer.tick, requests, hcontrol, hreloads, hk.lowOverflow, hk.highOverflow, h.layout]
  · simp only [Timer.tick, signals, hcontrol, hreloads, hk.lowOverflow, hk.highOverflow,
      hk.started, h.drivesBuzzer]

theorem step : (t.step ram c).Twin (t'.step ram c) := by
  unfold Timer.step
  rw [← h.prescaler]
  cases t.prescaler with
  | none => exact h.tick ram c
  | some p =>
    have hnext : Twin { t with prescaler := some (p.step (ram.readRaw Register.t0prr.toNat)).1 }
        { t' with prescaler := some (p.step (ram.readRaw Register.t0prr.toNat)).1 } :=
      ⟨⟨rfl, h.low, h.high⟩, h.layout, h.drivesBuzzer⟩
    dsimp only
    split
    · exact hnext.tick ram c
    · exact ⟨hnext, rfl, rfl, rfl⟩

end Twin

/-! ## Wiring -/

/-- The timer is wired as `built` is: layout, buzzer, and whether there is a divider. -/
structure WiredAs (t built : Timer) : Prop where
  layout : t.layout = built.layout
  drivesBuzzer : t.drivesBuzzer = built.drivesBuzzer
  divided : t.prescaler.isSome = built.prescaler.isSome

theorem Alike.twin {t t' built : Timer} (h : t.Alike t') (hw : t.WiredAs built)
    (hw' : t'.WiredAs built) : t.Twin t' :=
  ⟨h, hw.layout.trans hw'.layout.symm, hw.drivesBuzzer.trans hw'.drivesBuzzer.symm⟩

namespace WiredAs

variable {t built : Timer} (h : t.WiredAs built) (ram : Ram) (c : Controller)

include h

theorem tick : (t.tick ram c).timer.WiredAs built :=
  ⟨h.layout, h.drivesBuzzer, h.divided⟩

theorem step : (t.step ram c).timer.WiredAs built := by
  unfold Timer.step
  cases hp : t.prescaler with
  | none => exact h.tick ram c
  | some p =>
    have hdivided : true = built.prescaler.isSome := by rw [← h.divided, hp]; rfl
    dsimp only
    split
    · exact ⟨h.layout, h.drivesBuzzer, hdivided⟩
    · exact ⟨h.layout, h.drivesBuzzer, hdivided⟩

omit h in
theorem undivided (h : t.WiredAs one) : t.prescaler = none :=
  Option.not_isSome_iff_eq_none.mp (Bool.eq_false_iff.mp h.divided)

omit h in
theorem step_eq_tick (h : t.WiredAs one) : t.step ram c = t.tick ram c := by
  rw [Timer.step, h.undivided]

end WiredAs

theorem sound_mem_signals {t : Timer} (h : t.WiredAs one) (ram : Ram) (c : Controller) :
    ∃ on, .sound on ∈ (t.step ram c).signals := by
  have hb : t.drivesBuzzer = true := h.drivesBuzzer
  refine ⟨(t.control ram).sounds, ?_⟩
  rw [h.step_eq_tick]
  simp only [Timer.tick, signals, hb, if_true]
  split
  · exact List.mem_cons_of_mem _ (List.mem_cons_self ..)
  · exact List.mem_cons_self ..

end VisualMemory.Timer
