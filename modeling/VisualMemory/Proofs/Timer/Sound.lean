import VisualMemory.Proofs.Act
import VisualMemory.Proofs.Interrupt.Poll
import VisualMemory.Proofs.Timer.Alike

/-!
# Timers stay in range

* `Timer.Sound`: between clocks the counters and the divider of a timer are bytes. `sound_tick` and
  `sound_step`: a clock and a cycle lead there from anywhere.
* `Ram.IsCounter`: the registers that the two timers latch. `Ram.OnlyCounters`: no other is.
* `ClockInvariant`: what has to be shown of a property of timers and latches for it to hold of every
  reachable machine; `ClockInvariant.act`, `ClockInvariant.of_reachable`.
* `Machine.Clocked`: both timers are sound, and only counters are latched. `Reachable.clocked`.
* `Machine.Wired`: the timers are wired as they were built. `Reachable.wired`.
* `Wired.advance_of_stepTimer1`: what holds behind the last cycle of a step.
-/

namespace VisualMemory

open Interrupt (Controller)

/-! ## Counters -/

namespace Timer

/-- The timer has this layout, and its counters and its divider hold bytes. -/
structure Sound (t : Timer) (layout : Layout) : Prop where
  layout_eq : t.layout = layout
  low_le : t.low.count ≤ 0xFF
  high_le : t.high.count ≤ 0xFF
  prescaler_le : ∀ p, t.prescaler = some p → p.count ≤ 0xFF

theorem toUInt16_le (b : UInt8) : b.toUInt16 ≤ 0xFF :=
  UInt16.le_iff_toNat_le.mpr (by
    have := b.toNat_lt
    rw [UInt8.toNat_toUInt16]
    exact Nat.le_of_lt_succ this)

theorem Half.count_le {h : Half} (hover : h.isOver = false) : h.count ≤ 0xFF :=
  UInt16.not_lt.mp (of_decide_eq_false hover)

theorem Tick.low_count_le (c : Control) (r : Reloads) (low high : Half) :
    (Tick.of c r low high).low.count ≤ 0xFF := by
  simp only [Tick.of]
  split
  · exact toUInt16_le _
  · split
    · exact toUInt16_le _
    · exact Half.count_le (Bool.not_eq_true _ ▸ ‹_›)

theorem Tick.high_count_le (c : Control) (r : Reloads) (low high : Half) :
    (Tick.of c r low high).high.count ≤ 0xFF := by
  simp only [Tick.of]
  split
  · exact toUInt16_le _
  · exact Half.count_le (Bool.not_eq_true _ ▸ ‹_›)

theorem Prescaler.count_step_le (p : Prescaler) (reload : UInt8) :
    (p.step reload).1.count ≤ 0xFF := by
  unfold Prescaler.step
  dsimp only
  split
  · exact toUInt16_le reload
  · exact UInt16.not_lt.mp ‹_›

theorem sound_tick {t : Timer} {layout : Layout} (hl : t.layout = layout)
    (hp : ∀ p, t.prescaler = some p → p.count ≤ 0xFF) (ram : Ram) (c : Controller) :
    (t.tick ram c).timer.Sound layout :=
  ⟨hl, Tick.low_count_le .., Tick.high_count_le .., hp⟩

theorem sound_step {t : Timer} {layout : Layout} (h : t.Sound layout) (ram : Ram) (c : Controller) :
    (t.step ram c).timer.Sound layout := by
  unfold step
  cases hp : t.prescaler with
  | none => exact sound_tick h.layout_eq h.prescaler_le ram c
  | some p =>
    have hnext : ∀ q, some (p.step (ram.readRaw Register.t0prr.toNat)).1 = some q →
        q.count ≤ 0xFF := by
      rintro q ⟨⟩
      exact p.count_step_le _
    dsimp only
    split
    · exact ⟨h.layout_eq, Tick.low_count_le .., Tick.high_count_le .., hnext⟩
    · exact ⟨h.layout_eq, h.low_le, h.high_le, hnext⟩

end Timer

/-! ## Latches -/

namespace Ram

/-- The register, by its offset, shares its address with a counter of a timer. -/
def IsCounter (o : Fin 128) : Prop :=
  o ∈ [0x12, 0x14, 0x1B, 0x1D]

instance (o : Fin 128) : Decidable (IsCounter o) :=
  inferInstanceAs (Decidable (_ ∈ _))

/-- No register is latched but the counters. -/
def OnlyCounters (ram : Ram) : Prop :=
  ∀ o, ¬ IsCounter o → ram.latches.get o = none

theorem OnlyCounters.read_eq_cell {ram : Ram} (h : ram.OnlyCounters) {o : Fin 128}
    (ho : ¬ IsCounter o) : ram.read (0x100 + o.val) = ram.cell (.register o) := by
  rw [read_register, h o ho]
  rfl

theorem onlyCounters_of_latches {ram ram' : Ram} (h : ram.OnlyCounters)
    (hl : ram'.latches = ram.latches) : ram'.OnlyCounters := by
  intro o ho
  rw [hl]
  exact h o ho

theorem onlyCounters_resetRegisters (ram : Ram) : ram.resetRegisters.OnlyCounters := by
  intro o _
  exact Vector.getElem_replicate ..

theorem onlyCounters_latchCounter {ram : Ram} (h : ram.OnlyCounters) {address : UInt16}
    {i : Fin 128} (hi : register? address = some i) (hc : IsCounter i) (value : UInt8) :
    (ram.latchCounter address value).OnlyCounters := by
  intro o ho
  have hne : i.val ≠ o.val := by
    intro heq
    rw [Fin.ext heq] at hc
    exact ho hc
  rw [latchCounter, hi]
  exact (Vector.getElem_set_ne i.isLt o.isLt hne).trans (h o ho)

end Ram

namespace Timer

theorem onlyCounters_report {t : Timer} {ram : Ram} (hl : t.layout = .timer0 ∨ t.layout = .timer1)
    (h : ram.OnlyCounters) (c : Control) (k : Tick) : (t.report c k ram).OnlyCounters := by
  have hwrite := Ram.onlyCounters_of_latches h
    (Ram.latches_write ram t.layout.control.toNat (k.control c).toByte)
  rcases hl with hl | hl
  · have hlow : Ram.register? t.layout.lowCounter = some 0x12 := by rw [hl]; rfl
    have hhigh : Ram.register? t.layout.highCounter = some 0x14 := by rw [hl]; rfl
    exact Ram.onlyCounters_latchCounter
      (Ram.onlyCounters_latchCounter hwrite hlow (by decide) _) hhigh (by decide) _
  · have hlow : Ram.register? t.layout.lowCounter = some 0x1B := by rw [hl]; rfl
    have hhigh : Ram.register? t.layout.highCounter = some 0x1D := by rw [hl]; rfl
    exact Ram.onlyCounters_latchCounter
      (Ram.onlyCounters_latchCounter hwrite hlow (by decide) _) hhigh (by decide) _

theorem onlyCounters_step {t : Timer} {ram : Ram} (hl : t.layout = .timer0 ∨ t.layout = .timer1)
    (h : ram.OnlyCounters) (c : Controller) : (t.step ram c).ram.OnlyCounters := by
  unfold step
  cases t.prescaler with
  | none => exact onlyCounters_report hl h _ _
  | some p =>
    dsimp only
    split
    · exact onlyCounters_report hl h _ _
    · exact h

end Timer

/-! ## Machines -/

/-- A property of timers and latches that every clock and every clearing of the registers keeps. -/
structure ClockInvariant (P : Machine → Prop) : Prop where
  of_eq : ∀ {m n : Machine}, P m → n.timer0 = m.timer0 → n.timer1 = m.timer1 →
    n.ram.latches = m.ram.latches → P n
  clearRegisters : ∀ {m : Machine}, P m → P { m with ram := m.ram.resetRegisters }
  stepTimer0 : ∀ {m : Machine}, P m → P m.stepTimer0
  stepTimer1 : ∀ {m : Machine}, P m → P m.stepTimer1
  tickTimer0 : ∀ {m : Machine}, P m → P m.tickTimer0
  tickTimer1 : ∀ {m : Machine}, P m → P m.tickTimer1

namespace ClockInvariant

open Machine

variable {P : Machine → Prop} (hP : ClockInvariant P) {m n : Machine} (h : P m)

include hP h

theorem outside (h' : Outside m n) : P n :=
  hP.of_eq h h'.timer0 h'.timer1 h'.latches

omit h in
theorem elapse {m : Machine} (h : P m) (cycles : Nat) : P (m.elapse cycles) := by
  induction cycles generalizing m with
  | zero => exact h
  | succ cycles ih => exact ih (hP.stepTimer1 (hP.stepTimer0 h))

theorem reset : P m.reset :=
  hP.of_eq (hP.clearRegisters h) rfl rfl ((Ram.latches_write ..).trans (Ram.latches_write ..))

theorem serve (s : Interrupt.Source) : P (m.serve s) := by
  by_cases hr : s = .reset
  · rw [hr, serve_reset]
    exact reset hP (hP.of_eq h rfl rfl rfl)
  · rw [serve_of_ne hr]
    exact hP.of_eq h rfl rfl (enter_latches m s)

theorem poll : P m.poll.1 := by
  have haccept : P m.accept := hP.of_eq h rfl rfl rfl
  rcases poll_cases m with ⟨-, hp⟩ | ⟨s, -, hp⟩
  · rw [hp]
    exact haccept
  · rw [hp]
    have hserved : P (m.accept.dequeue s) := hP.of_eq haccept rfl rfl rfl
    exact hP.serve hserved s

theorem advance : P m.advance.1 :=
  hP.elapse (hP.outside h (runs_processInstruction ..).outside) _

theorem step : P m.step.1 :=
  hP.poll (hP.advance h)

theorem act (a : Act) : P (a.run m) := by
  cases a with
  | step => exact hP.step h
  | runFor cycles => exact runOn_keeps (fun _ h => hP.step h) h 0 cycles.toNat
  | instruction noted => exact hP.outside h (runs_processInstruction m noted).outside
  | execute raw => exact hP.outside h (runs_execute m raw).outside
  | poll => exact hP.poll h
  | stepTimer0 => exact hP.stepTimer0 h
  | stepTimer1 => exact hP.stepTimer1 h
  | tickTimer0 => exact hP.tickTimer0 h
  | tickTimer1 => exact hP.tickTimer1 h
  | reset => exact hP.reset h
  | directBoot entry => exact hP.of_eq (hP.reset h) rfl rfl rfl
  | clearRegisters => exact hP.clearRegisters h
  | writeRam address value => exact hP.of_eq h rfl rfl (Ram.latches_write ..)
  | writeStack sp value => exact hP.of_eq h rfl rfl (Ram.latches_writeStack ..)
  | writeProgram address value =>
    rw [Act.run, writeProgram_eq]
    exact hP.of_eq h rfl rfl rfl
  | _ => exact hP.of_eq h rfl rfl rfl

omit h in
theorem runActs {m : Machine} (h : P m) (acts : List Act) : P (m.runActs acts) := by
  induction acts generalizing m with
  | nil => exact h
  | cons a acts ih => exact ih (hP.act h a)

omit h in
/-- An invariant that holds before the first reset holds of every reachable machine. -/
theorem of_reachable
    (hunbooted : ∀ rom flash config journal, P (unbooted rom flash config journal))
    (h : Reachable m) : P m :=
  h.of_act (fun _ _ _ _ => hP.reset (hunbooted ..)) (fun _ a h => hP.act h a)

end ClockInvariant

/-- The timers are sound, and nothing but their counters is latched. -/
structure Machine.Clocked (m : Machine) : Prop where
  timer0 : m.timer0.Sound .timer0
  timer1 : m.timer1.Sound .timer1
  latches : m.ram.OnlyCounters

namespace Machine.Clocked

variable {m : Machine}

theorem takeTimer0 (h : m.Clocked) {o : Timer.Outcome} (ht : o.timer.Sound .timer0)
    (hr : o.ram.OnlyCounters) : (m.takeTimer0 o).Clocked :=
  ⟨(takeTimer0_timer0 m o).symm ▸ ht, (takeTimer0_timer1 m o).symm ▸ h.timer1,
    (takeTimer0_ram m o).symm ▸ hr⟩

theorem takeTimer1 (h : m.Clocked) {o : Timer.Outcome} (ht : o.timer.Sound .timer1)
    (hr : o.ram.OnlyCounters) : (m.takeTimer1 o).Clocked :=
  ⟨(takeTimer1_timer0 m o).symm ▸ h.timer0, (takeTimer1_timer1 m o).symm ▸ ht,
    (takeTimer1_ram m o).symm ▸ hr⟩

theorem stepTimer0 (h : m.Clocked) : m.stepTimer0.Clocked :=
  h.takeTimer0 (Timer.sound_step h.timer0 ..)
    (Timer.onlyCounters_step (.inl h.timer0.layout_eq) h.latches _)

theorem stepTimer1 (h : m.Clocked) : m.stepTimer1.Clocked :=
  h.takeTimer1 (Timer.sound_step h.timer1 ..)
    (Timer.onlyCounters_step (.inr h.timer1.layout_eq) h.latches _)

theorem invariant : ClockInvariant Clocked where
  of_eq h h0 h1 hl := ⟨h0 ▸ h.timer0, h1 ▸ h.timer1, Ram.onlyCounters_of_latches h.latches hl⟩
  clearRegisters h := ⟨h.timer0, h.timer1, Ram.onlyCounters_resetRegisters _⟩
  stepTimer0 := stepTimer0
  stepTimer1 := stepTimer1
  tickTimer0 h := h.takeTimer0 (Timer.sound_tick h.timer0.layout_eq h.timer0.prescaler_le ..)
    (Timer.onlyCounters_report (.inl h.timer0.layout_eq) h.latches _ _)
  tickTimer1 h := h.takeTimer1 (Timer.sound_tick h.timer1.layout_eq h.timer1.prescaler_le ..)
    (Timer.onlyCounters_report (.inr h.timer1.layout_eq) h.latches _ _)

theorem outside {n : Machine} (h : m.Clocked) (h' : Outside m n) : n.Clocked :=
  invariant.outside h h'

theorem advance (h : m.Clocked) : m.advance.1.Clocked :=
  invariant.advance h

theorem step (h : m.Clocked) : m.step.1.Clocked :=
  invariant.step h

theorem act (h : m.Clocked) (a : Act) : (a.run m).Clocked :=
  invariant.act h a

end Machine.Clocked

theorem Timer.sound_zero : zero.Sound .timer0 :=
  ⟨rfl, by decide, by decide, by rintro p ⟨⟩; decide⟩

theorem Timer.sound_one : one.Sound .timer1 :=
  ⟨rfl, by decide, by decide, by rintro p ⟨⟩⟩

theorem Machine.clocked_unbooted (rom : Rom) (flash : Flash) (config : Config)
    (journal : Journal) : (unbooted rom flash config journal).Clocked where
  timer0 := Timer.sound_zero
  timer1 := Timer.sound_one
  latches := by
    intro o _
    exact Vector.getElem_replicate ..

theorem Reachable.clocked {m : Machine} (h : Reachable m) : m.Clocked :=
  Machine.Clocked.invariant.of_reachable Machine.clocked_unbooted h

/-- The timers are wired as they were built. -/
structure Machine.Wired (m : Machine) : Prop where
  timer0 : m.timer0.WiredAs .zero
  timer1 : m.timer1.WiredAs .one

namespace Machine.Wired

variable {m : Machine}

theorem takeTimer0 (h : m.Wired) {o : Timer.Outcome} (ho : o.timer.WiredAs .zero) :
    (m.takeTimer0 o).Wired :=
  ⟨(takeTimer0_timer0 m o).symm ▸ ho, (takeTimer0_timer1 m o).symm ▸ h.timer1⟩

theorem takeTimer1 (h : m.Wired) {o : Timer.Outcome} (ho : o.timer.WiredAs .one) :
    (m.takeTimer1 o).Wired :=
  ⟨(takeTimer1_timer0 m o).symm ▸ h.timer0, (takeTimer1_timer1 m o).symm ▸ ho⟩

theorem invariant : ClockInvariant Wired where
  of_eq h h0 h1 _ := ⟨h0 ▸ h.timer0, h1 ▸ h.timer1⟩
  clearRegisters h := ⟨h.timer0, h.timer1⟩
  stepTimer0 h := h.takeTimer0 (h.timer0.step ..)
  stepTimer1 h := h.takeTimer1 (h.timer1.step ..)
  tickTimer0 h := h.takeTimer0 (h.timer0.tick ..)
  tickTimer1 h := h.takeTimer1 (h.timer1.tick ..)

theorem step (h : m.Wired) : m.step.1.Wired :=
  invariant.step h

theorem runActs (h : m.Wired) (acts : List Act) : (m.runActs acts).Wired :=
  invariant.runActs h acts

/-- What holds behind each cycle of timer 1 holds before the poll of a step, since a step takes
time. -/
theorem advance_of_stepTimer1 {P : Machine → Prop} (hP : ∀ n : Machine, n.Wired → P n.stepTimer1)
    (h : m.Wired) : P m.advance.1 := by
  have helapse (cycles : Nat) : ∀ n : Machine, n.Wired → P (n.elapse (cycles + 1)) := by
    induction cycles with
    | zero => exact fun n hn => hP _ (invariant.stepTimer0 hn)
    | succ cycles ih =>
      exact fun n hn => ih _ (invariant.stepTimer1 (invariant.stepTimer0 hn))
  have hrun := invariant.outside h (runs_processInstruction m m.debug).outside
  have hpos : 0 < (m.processInstruction m.debug).2.cycles := m.step_cycles_pos
  obtain ⟨cycles, hcycles⟩ := Nat.exists_eq_add_one.mpr hpos
  show P ((m.processInstruction m.debug).1.elapse (m.processInstruction m.debug).2.cycles)
  rw [hcycles]
  exact helapse cycles _ hrun

end Machine.Wired

theorem Reachable.wired {m : Machine} (h : Reachable m) : m.Wired :=
  Machine.Wired.invariant.of_reachable (fun _ _ _ _ => ⟨⟨rfl, rfl, rfl⟩, ⟨rfl, rfl, rfl⟩⟩) h

end VisualMemory
