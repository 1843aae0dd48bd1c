import VisualMemory.Proofs.Program.Reading
import VisualMemory.Proofs.Timer.Divider
import VisualMemory.Proofs.Timer.Live

/-!
# What timers report

A timer writes its whole control byte at every clock, and asks the controller for service. All that
comes of this is news: flags are set, requests are made, the counters are latched, and nothing else
is touched.

* `Timer.Reports`: what a cycle of a timer may do to memory and controller. `reports_tick`,
  `reports_step`: a clock and a cycle do no more.
* `Machine.Retains`: no bit in memory and no request is cleared. `retains_elapse`: not by any number
  of cycles.
* `cycles_only_report`: both together.
-/

namespace VisualMemory

open Interrupt (Source Controller)

namespace Timer

/-! ## One cycle -/

/-- What a cycle of a timer may do to memory and controller: `ram` and `c` are those before it,
`ram'` and `c'` those after it. -/
structure Reports (t : Timer) (ram ram' : Ram) (c c' : Controller) : Prop where
  /-- Only the control register changes. -/
  cells : ∀ cell, cell ≠ ram.locate t.layout.control.toNat → ram'.cell cell = ram.cell cell
  /-- Only its overflow flags change, and they are only set. -/
  flags : ∀ i < 8,
    (ram'.readRaw t.layout.control.toNat).bit i = (ram.readRaw t.layout.control.toNat).bit i ∨
      (i = 1 ∨ i = 3) ∧ (ram'.readRaw t.layout.control.toNat).bit i = true
  /-- Nothing is latched but the timer's counters. -/
  latches : ∀ address, address ≠ t.layout.lowCounter → address ≠ t.layout.highCounter →
    ram'.latch? address = ram.latch? address
  /-- No request is taken back. -/
  kept : ∀ i, c.bit i = true → c'.bit i = true
  /-- The timer's sources ask for service, each with a cause. -/
  cause : ∀ i, c'.bit i = true → c.bit i = false →
    i = t.layout.lowSource.index.toNat ∧ (t.control ram).lowIrqEnable = true ∧
        (t.control ram).longMode = false ∧ (t.control ram').lowOverflow = true ∨
      i = t.layout.highSource.index.toNat ∧ (t.control ram).highIrqEnable = true ∧
        (t.control ram').highOverflow = true

theorem Reports.refl (t : Timer) (ram : Ram) (c : Controller) : t.Reports ram ram c c where
  cells _ _ := rfl
  flags _ _ := .inl rfl
  latches _ _ _ := rfl
  kept _ h := h
  cause _ h h' := absurd (h.symm.trans h') Bool.true_eq_false.mp

/-- The control byte that a clock writes is the one that it has read, with flags set. -/
theorem bit_toByte_control (k : Tick) (b : UInt8) {i : UInt8} (hi : i < 8) :
    (k.control (.ofByte b)).toByte.bit i = b.bit i ∨
      (i = 1 ∨ i = 3) ∧ (k.control (.ofByte b)).toByte.bit i = true := by
  -- what has been packed is unpacked again, so each bit can be told by its meaning
  have hback := Control.ofByte_toByte (k.control (.ofByte b))
  have hlow : (k.control (.ofByte b)).toByte.bit 1 =
      (b.bit 1 || k.lowOverflow || (k.highOverflow && b.bit 5)) :=
    congrArg Control.lowOverflow hback
  have hhigh : (k.control (.ofByte b)).toByte.bit 3 = (b.bit 3 || k.highOverflow) :=
    congrArg Control.highOverflow hback
  have hcases : ∀ i : UInt8, i < 8 →
      i = 0 ∨ i = 1 ∨ i = 2 ∨ i = 3 ∨ i = 4 ∨ i = 5 ∨ i = 6 ∨ i = 7 :=
    forall_byte (by decide +kernel)
  rcases hcases i hi with rfl | rfl | rfl | rfl | rfl | rfl | rfl | rfl
  · exact .inl (congrArg Control.lowIrqEnable hback)
  · cases hnow : (k.control (.ofByte b)).toByte.bit 1 with
    | true => exact .inr ⟨.inl rfl, rfl⟩
    | false =>
      rw [hlow, Bool.or_eq_false_iff, Bool.or_eq_false_iff] at hnow
      exact .inl hnow.1.1.symm
  · exact .inl (congrArg Control.highIrqEnable hback)
  · cases hnow : (k.control (.ofByte b)).toByte.bit 3 with
    | true => exact .inr ⟨.inr rfl, rfl⟩
    | false =>
      rw [hhigh, Bool.or_eq_false_iff] at hnow
      exact .inl hnow.1.symm
  · exact .inl (congrArg Control.external hback)
  · exact .inl (congrArg Control.longMode hback)
  · exact .inl (congrArg Control.lowRun hback)
  · exact .inl (congrArg Control.highRun hback)

theorem reports_tick {t : Timer} (hl : t.layout = .timer0 ∨ t.layout = .timer1) (ram : Ram)
    (c : Controller) : t.Reports ram (t.tick ram c).ram c (t.tick ram c).interrupts := by
  let k := Tick.of (t.control ram) (t.reloads ram) t.low t.high
  obtain ⟨o, ho⟩ := exists_control_register hl
  have hcontrol : t.control (t.tick ram c).ram = k.control (t.control ram) := control_tick hl ram c
  have hbyte : (t.tick ram c).ram.readRaw t.layout.control.toNat =
      (k.control (t.control ram)).toByte := by
    rw [tick, report, Ram.readRaw_latchCounter, Ram.readRaw_latchCounter, ho,
      Ram.readRaw_write_register]
  constructor
  · intro cell hne
    rw [tick, report, Ram.cell_latchCounter, Ram.cell_latchCounter, Ram.write, Ram.cell_setCell,
      if_neg hne.symm]
  · intro i hi
    rw [hbyte]
    exact bit_toByte_control k _ hi
  · intro address hlow hhigh
    have hnone : (t.tick ram c).timer.counter? address = none :=
      counter?_eq_none.mpr ⟨hhigh, hlow⟩
    rw [latch?_tick hl, hnone]
    rfl
  · intro i hi
    exact (Controller.bit_foldl_raise _ c i).mpr (.inl hi)
  · intro i hi hbefore
    have hset : ∃ s ∈ t.requests (t.control ram) k, s.index.toNat = i :=
      ((Controller.bit_foldl_raise _ c i).mp hi).resolve_left
        fun h => Bool.false_ne_true (hbefore.symm.trans h)
    obtain ⟨s, hs, rfl⟩ := hset
    rw [hcontrol, Tick.control]
    rcases List.mem_append.mp hs with hs | hs
    · rw [List.mem_ite_nil_right, List.mem_singleton, Bool.and_eq_true] at hs
      obtain ⟨⟨hover, hirq⟩, rfl⟩ := hs
      have hlong : (t.control ram).longMode = false := by
        rw [Tick.lowOverflow_of, Bool.and_eq_true, Bool.not_eq_true'] at hover
        exact hover.2
      refine .inl ⟨rfl, hirq, hlong, ?_⟩
      rw [hover, Bool.or_true, Bool.true_or]
    · rw [List.mem_ite_nil_right, List.mem_singleton, Bool.and_eq_true] at hs
      obtain ⟨⟨hover, hirq⟩, rfl⟩ := hs
      refine .inr ⟨rfl, hirq, ?_⟩
      rw [hover, Bool.or_true]

theorem reports_step {t : Timer} (hl : t.layout = .timer0 ∨ t.layout = .timer1) (ram : Ram)
    (c : Controller) : t.Reports ram (t.step ram c).ram c (t.step ram c).interrupts := by
  by_cases h : t.fires ram = true
  · rw [step_of_fires h]
    -- the divider's count is no part of what a report is about
    have hclock := reports_tick (t := t.divided ram) hl ram c
    exact ⟨hclock.cells, hclock.flags, hclock.latches, hclock.kept, hclock.cause⟩
  · rw [step_of_not_fires h]
    exact .refl t ram c

theorem layout_step (t : Timer) (ram : Ram) (c : Controller) :
    (t.step ram c).timer.layout = t.layout := by
  by_cases h : t.fires ram = true
  · rw [step_of_fires h]
    rfl
  · rw [step_of_not_fires h]
    rfl

end Timer

/-! ## Many cycles -/

namespace Machine

/-- No bit of any byte in memory is cleared from `m` to `n`, and neither is any request. -/
structure Retains (m n : Machine) : Prop where
  bits : ∀ cell, ∀ i < 8, (m.ram.cell cell).bit i = true → (n.ram.cell cell).bit i = true
  requests : ∀ i, m.interrupts.bit i = true → n.interrupts.bit i = true

theorem Retains.refl (m : Machine) : m.Retains m :=
  ⟨fun _ _ _ h => h, fun _ h => h⟩

theorem Retains.trans {m n k : Machine} (h : m.Retains n) (h' : n.Retains k) : m.Retains k :=
  ⟨fun cell i hi hbit => h'.bits cell i hi (h.bits cell i hi hbit),
    fun i hbit => h'.requests i (h.requests i hbit)⟩

end Machine

theorem Timer.Reports.retains {t : Timer} (hl : t.layout = .timer0 ∨ t.layout = .timer1)
    {m n : Machine} (h : t.Reports m.ram n.ram m.interrupts n.interrupts) : m.Retains n := by
  refine ⟨?_, h.kept⟩
  intro cell i hi hbit
  by_cases hcell : cell = m.ram.locate t.layout.control.toNat
  · obtain ⟨o, ho⟩ := Timer.exists_control_register hl
    have hflags := h.flags i hi
    rw [ho, Ram.readRaw_register, Ram.readRaw_register] at hflags
    rw [ho, Ram.locate_register] at hcell
    rw [hcell] at hbit ⊢
    rcases hflags with hsame | ⟨-, hset⟩
    · rw [hsame, hbit]
    · exact hset
  · rw [h.cells cell hcell, hbit]

namespace Machine

variable {m : Machine}

theorem retains_stepTimer0 (hl : m.timer0.layout = .timer0) : m.Retains m.stepTimer0 := by
  refine Timer.Reports.retains (.inl hl) ?_
  rw [stepTimer0, takeTimer0_ram, takeTimer0_interrupts]
  exact Timer.reports_step (.inl hl) m.ram m.interrupts

theorem retains_stepTimer1 (hl : m.timer1.layout = .timer1) : m.Retains m.stepTimer1 := by
  refine Timer.Reports.retains (.inr hl) ?_
  rw [stepTimer1, takeTimer1_ram, takeTimer1_interrupts]
  exact Timer.reports_step (.inr hl) m.ram m.interrupts

theorem retains_elapse (h0 : m.timer0.layout = .timer0) (h1 : m.timer1.layout = .timer1)
    (cycles : Nat) : m.Retains (m.elapse cycles) := by
  induction cycles generalizing m with
  | zero => exact .refl m
  | succ cycles ih =>
    have h1' : m.stepTimer0.timer1.layout = .timer1 := by rw [stepTimer0, takeTimer0_timer1, h1]
    have hnext0 : m.stepTimer0.stepTimer1.timer0.layout = .timer0 := by
      rw [stepTimer1, takeTimer1_timer0, stepTimer0, takeTimer0_timer0, Timer.layout_step, h0]
    have hnext1 : m.stepTimer0.stepTimer1.timer1.layout = .timer1 := by
      rw [stepTimer1, takeTimer1_timer1, Timer.layout_step, h1']
    exact ((retains_stepTimer0 h0).trans (retains_stepTimer1 h1')).trans (ih hnext0 hnext1)

end Machine

/-- **Timers only report.** A cycle of a timer, whatever its state, changes no byte in memory but its
control register, in which it sets overflow flags and does nothing else, and no latch but those of
its counters. It takes no request back, and asks for service only by its own sources, with the
interrupt enabled and the flag of the overflow set; the low one outside long mode only. So no number
of cycles clears a flag or a request. -/
theorem cycles_only_report :
    (∀ t : Timer, t.layout = .timer0 ∨ t.layout = .timer1 → ∀ (ram : Ram) (c : Controller),
      t.Reports ram (t.step ram c).ram c (t.step ram c).interrupts) ∧
    (∀ m : Machine, m.timer0.layout = .timer0 → m.timer1.layout = .timer1 →
      ∀ cycles, m.Retains (m.elapse cycles)) :=
  ⟨fun _ hl ram c => Timer.reports_step hl ram c,
    fun _ h0 h1 cycles => Machine.retains_elapse h0 h1 cycles⟩

/-- Both halves of timer 1, which have one source, end in the same clock; and both flags that timer 0
has set in one cycle are still there a million cycles later. -/
theorem cycles_only_report_both_halves :
    let t : Timer := { Timer.one with low := ⟨0xFF, 1⟩, high := ⟨0xFF, 1⟩ }
    let ram := Timer.memoryOf .timer1 0xC5 ⟨0x20, 0x30, 0x40⟩
    let o := t.step ram {}
    let m := bothOverflow.elapse 1
    o.ram.cell (.register 0x18) = 0xCF ∧ o.interrupts.pending = [.t1hlov] ∧
      o.ram.cell (.register 0x1B) = ram.cell (.register 0x1B) ∧
      o.ram.latch? Register.t0l = ram.latch? Register.t0l ∧
      ((m.elapse 1000000).ram.cell (.register 0x10)).bit 1 = true ∧
      ((m.elapse 1000000).ram.cell (.register 0x10)).bit 3 = true := by
  intro t ram o m
  have hreports : t.Reports ram o.ram {} o.interrupts := cycles_only_report.1 t (.inr rfl) ram {}
  have hretains : m.Retains (m.elapse 1000000) :=
    cycles_only_report.2 m (by decide +kernel) (by decide +kernel) 1000000
  have hlow : (m.ram.cell (.register 0x10)).bit 1 = true := by decide +kernel
  have hhigh : (m.ram.cell (.register 0x10)).bit 3 = true := by decide +kernel
  exact ⟨by decide +kernel, by decide +kernel, hreports.cells _ (by decide),
    hreports.latches _ (by decide) (by decide), hretains.bits _ 1 (by decide) hlow,
    hretains.bits _ 3 (by decide) hhigh⟩

end VisualMemory
