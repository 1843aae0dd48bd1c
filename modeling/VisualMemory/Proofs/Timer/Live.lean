import VisualMemory.Proofs.Program.Stores
import VisualMemory.Proofs.Timer.Sound

/-!
# Programs read live counters

The counters of the timers share their addresses with registers. A program that reads there reads
what the timer latched at its last clock. No latch is ever stale: it is set with every change of its
counter, and a reset, which does not reach the counter, takes it away.

* `Timer.counter?`: the counter of a timer at an address.
* `Ram.LatchesOf`: every latch holds a counter of one of two timers; `LatchesOf.tick`,
  `LatchesOf.step`: a clock and a cycle keep this.
* `Machine.Live`: the latches of a machine are those of its timers. `Reachable.live`.
-/

namespace VisualMemory

open Interrupt (Controller)

/-! ## Counters by address -/

namespace Timer

/-- The counter of the timer at an address. -/
def counter? (t : Timer) (address : UInt16) : Option UInt16 :=
  if address = t.layout.highCounter then some t.high.count
  else if address = t.layout.lowCounter then some t.low.count
  else none

theorem counter?_eq_none {t : Timer} {address : UInt16} :
    t.counter? address = none ↔ address ≠ t.layout.highCounter ∧ address ≠ t.layout.lowCounter := by
  unfold counter?
  split
  · simp_all
  · split
    · simp_all
    · simp_all

variable {t : Timer}

theorem counter?_eq_some {address count : UInt16} (h : t.counter? address = some count) :
    address = t.layout.highCounter ∧ count = t.high.count ∨
      address = t.layout.lowCounter ∧ count = t.low.count := by
  unfold counter? at h
  split at h
  · rename_i ha
    exact .inl ⟨ha, (Option.some.inj h).symm⟩
  · split at h
    · rename_i ha
      exact .inr ⟨ha, (Option.some.inj h).symm⟩
    · cases h

theorem Sound.counter?_le {layout : Layout} (h : t.Sound layout) {address count : UInt16}
    (hc : t.counter? address = some count) : count ≤ 0xFF := by
  rcases counter?_eq_some hc with ⟨-, rfl⟩ | ⟨-, rfl⟩
  · exact h.high_le
  · exact h.low_le

theorem toUInt16_toUInt8 {count : UInt16} (h : count ≤ 0xFF) : count.toUInt8.toUInt16 = count := by
  have hlt : count.toNat < 256 := Nat.lt_succ_of_le (UInt16.le_iff_toNat_le.mp h)
  apply UInt16.toNat_inj.mp
  rw [UInt8.toNat_toUInt16, UInt16.toNat_toUInt8]
  exact Nat.mod_eq_of_lt hlt

theorem latch?_tick (hl : t.layout = .timer0 ∨ t.layout = .timer1) (ram : Ram) (c : Controller)
    (address : UInt16) : (t.tick ram c).ram.latch? address =
      (((t.tick ram c).timer.counter? address).map UInt16.toUInt8).or (ram.latch? address) := by
  obtain ⟨low, hlow⟩ : ∃ o, Ram.register? t.layout.lowCounter = some o := by
    rcases hl with hl | hl
    · exact ⟨0x12, by rw [hl]; rfl⟩
    · exact ⟨0x1B, by rw [hl]; rfl⟩
  obtain ⟨high, hhigh⟩ : ∃ o, Ram.register? t.layout.highCounter = some o := by
    rcases hl with hl | hl
    · exact ⟨0x14, by rw [hl]; rfl⟩
    · exact ⟨0x1D, by rw [hl]; rfl⟩
  have hwrite (value : UInt8) : (ram.write t.layout.control.toNat value).latch? = ram.latch? :=
    Ram.latch?_congr (Ram.latches_write ..)
  simp only [tick, report]
  rw [Ram.latch?_latchCounter _ hhigh, Ram.latch?_latchCounter _ hlow, hwrite]
  unfold counter?
  dsimp only
  split
  · rfl
  · split
    · rfl
    · rfl

end Timer

/-! ## Latches of timers -/

/-- Every latch holds a counter of one of the two timers. -/
def Ram.LatchesOf (ram : Ram) (t u : Timer) : Prop :=
  ∀ address value, ram.latch? address = some value →
    t.counter? address = some value.toUInt16 ∨ u.counter? address = some value.toUInt16

theorem Ram.latchesOf_of_none {ram : Ram} (h : ram.latches = .replicate 128 none) (t u : Timer) :
    ram.LatchesOf t u := by
  intro address value hv
  have hnone : ram.latch? address = none := by
    cases ho : register? address with
    | none => exact latch?_of_none _ ho
    | some o =>
      rw [latch?_of_register? _ ho, h]
      exact Vector.getElem_replicate o.isLt
  rw [hnone] at hv
  cases hv

namespace Ram.LatchesOf

variable {ram : Ram} {t u : Timer} (h : ram.LatchesOf t u)

include h

theorem symm : ram.LatchesOf u t := by
  intro address value hv
  exact (h address value hv).symm

theorem tick {layout : Timer.Layout} (hl : layout = .timer0 ∨ layout = .timer1)
    (ht : t.Sound layout) (c : Controller) :
    (t.tick ram c).ram.LatchesOf (t.tick ram c).timer u := by
  have hsound := Timer.sound_tick ht.layout_eq ht.prescaler_le ram c
  intro address value hv
  rw [Timer.latch?_tick (ht.layout_eq.symm ▸ hl)] at hv
  cases hc : (t.tick ram c).timer.counter? address with
  | some count =>
    left
    rw [hc] at hv
    have hvalue : count.toUInt8 = value := Option.some.inj hv
    rw [← hvalue, Timer.toUInt16_toUInt8 (hsound.counter?_le hc)]
  | none =>
    -- the latch is an old one, and not of this timer, whose counters have not moved
    rw [hc] at hv
    have hnone : t.counter? address = none :=
      Timer.counter?_eq_none.mpr (Timer.counter?_eq_none (t := (t.tick ram c).timer) |>.mp hc)
    rcases h address value hv with hold | hold
    · rw [hnone] at hold
      cases hold
    · exact .inr hold

theorem step {layout : Timer.Layout} (hl : layout = .timer0 ∨ layout = .timer1)
    (ht : t.Sound layout) (c : Controller) :
    (t.step ram c).ram.LatchesOf (t.step ram c).timer u := by
  unfold Timer.step
  cases hp : t.prescaler with
  | none => exact h.tick hl ht c
  | some p =>
    let next := p.step (ram.readRaw Register.t0prr.toNat)
    have hdivided : ram.LatchesOf { t with prescaler := some next.1 } u := h
    have hsound : Timer.Sound { t with prescaler := some next.1 } layout := by
      refine ⟨ht.layout_eq, ht.low_le, ht.high_le, ?_⟩
      rintro q ⟨⟩
      exact p.count_step_le _
    dsimp only
    split
    · exact hdivided.tick hl hsound c
    · exact hdivided

end Ram.LatchesOf

/-- The latches of the machine are those of its timers. -/
structure Machine.Live (m : Machine) : Prop where
  clocked : m.Clocked
  latches : m.ram.LatchesOf m.timer0 m.timer1

namespace Machine.Live

variable {m : Machine}

theorem takeTimer0 {o : Timer.Outcome} (hc : (m.takeTimer0 o).Clocked)
    (ho : o.ram.LatchesOf o.timer m.timer1) : (m.takeTimer0 o).Live := by
  refine ⟨hc, ?_⟩
  rw [takeTimer0_ram, takeTimer0_timer0, takeTimer0_timer1]
  exact ho

theorem takeTimer1 {o : Timer.Outcome} (hc : (m.takeTimer1 o).Clocked)
    (ho : o.ram.LatchesOf o.timer m.timer0) : (m.takeTimer1 o).Live := by
  refine ⟨hc, ?_⟩
  rw [takeTimer1_ram, takeTimer1_timer0, takeTimer1_timer1]
  exact ho.symm

theorem invariant : ClockInvariant Live where
  of_eq := by
    intro m n h h0 h1 hl
    refine ⟨Clocked.invariant.of_eq h.clocked h0 h1 hl, ?_⟩
    intro address value hv
    rw [Ram.latch?_congr hl] at hv
    rw [h0, h1]
    exact h.latches address value hv
  clearRegisters := by
    intro m h
    refine ⟨Clocked.invariant.clearRegisters h.clocked, ?_⟩
    exact Ram.latchesOf_of_none rfl _ _
  stepTimer0 h := takeTimer0 h.clocked.stepTimer0 (h.latches.step (.inl rfl) h.clocked.timer0 _)
  stepTimer1 h :=
    takeTimer1 h.clocked.stepTimer1 (h.latches.symm.step (.inr rfl) h.clocked.timer1 _)
  tickTimer0 h := takeTimer0 (Clocked.invariant.tickTimer0 h.clocked)
    (h.latches.tick (.inl rfl) h.clocked.timer0 _)
  tickTimer1 h := takeTimer1 (Clocked.invariant.tickTimer1 h.clocked)
    (h.latches.symm.tick (.inr rfl) h.clocked.timer1 _)

end Machine.Live

theorem Reachable.live {m : Machine} (h : Reachable m) : m.Live :=
  Machine.Live.invariant.of_reachable
    (fun _ _ _ _ => ⟨Machine.clocked_unbooted .., Ram.latchesOf_of_none rfl _ _⟩) h

/-! ## Behind a step -/

namespace Machine

/-- A program that reads the counters of timer 1 reads the live ones. -/
structure Shows (m : Machine) : Prop where
  low : m.ram.latch? Register.t1l = some m.timer1.low.count.toUInt8
  high : m.ram.latch? Register.t1h = some m.timer1.high.count.toUInt8

theorem Shows.of_eq {m n : Machine} (h : m.Shows) (h1 : n.timer1 = m.timer1)
    (hl : n.ram.latches = m.ram.latches) : n.Shows := by
  constructor
  · rw [Ram.latch?_congr hl, h1, h.low]
  · rw [Ram.latch?_congr hl, h1, h.high]

theorem shows_stepTimer1 {m : Machine} (hw : m.timer1.WiredAs .one) : m.stepTimer1.Shows := by
  have hstep := hw.step_eq_tick m.ram m.interrupts
  have hl : m.timer1.layout = .timer1 := hw.layout
  have hlatch := Timer.latch?_tick (.inr hl) m.ram m.interrupts
  have hlow : (m.timer1.tick m.ram m.interrupts).timer.counter? Register.t1l =
      some (m.timer1.tick m.ram m.interrupts).timer.low.count := by
    show Timer.counter? { m.timer1 with low := _, high := _ } _ = _
    rw [Timer.counter?, hl]
    rfl
  have hhigh : (m.timer1.tick m.ram m.interrupts).timer.counter? Register.t1h =
      some (m.timer1.tick m.ram m.interrupts).timer.high.count := by
    show Timer.counter? { m.timer1 with low := _, high := _ } _ = _
    rw [Timer.counter?, hl]
    rfl
  constructor
  · rw [stepTimer1, takeTimer1_ram, takeTimer1_timer1, hstep, hlatch, hlow]
    rfl
  · rw [stepTimer1, takeTimer1_ram, takeTimer1_timer1, hstep, hlatch, hhigh]
    rfl

/-- Only a reset takes latches away. -/
theorem Shows.poll {m : Machine} (h : m.Shows) (hs : m.poll.2 ≠ some .reset) : m.poll.1.Shows := by
  rcases poll_fst_of_ne hs with hp | ⟨s, hp⟩
  · rw [hp]
    exact h.of_eq rfl rfl
  · rw [hp]
    exact h.of_eq rfl (enter_latches (m.accept.dequeue s) s)

theorem shows_step {m : Machine} (hw : m.Wired) (hs : m.stepServed ≠ some .reset) :
    m.step.1.Shows := by
  have hadvance : m.advance.1.Shows :=
    hw.advance_of_stepTimer1 fun _ hn => shows_stepTimer1 hn.timer1
  exact hadvance.poll hs

end Machine

/-! ## Every register -/

theorem Ram.OnlyCounters.read_eq_readRaw {ram : Ram} (h : ram.OnlyCounters) {address : Nat}
    (ha : ∀ r ∈ [Register.t0l, Register.t0h, Register.t1l, Register.t1h],
      address % 512 ≠ r.toNat) : ram.read address = ram.readRaw address := by
  rw [read, readRaw]
  cases hl : ram.locate address with
  | main | xram => rfl
  | register o =>
    have hplace := eq_of_locate_register hl
    have ho : ¬ IsCounter o := by
      intro ho
      simp only [IsCounter, List.mem_cons, List.not_mem_nil, or_false] at ho
      rcases ho with rfl | rfl | rfl | rfl
      · exact ha Register.t0l (by decide) hplace
      · exact ha Register.t0h (by decide) hplace
      · exact ha Register.t1l (by decide) hplace
      · exact ha Register.t1h (by decide) hplace
    show (ram.latches.get o).getD _ = _
    rw [h o ho]
    rfl

/-- **Programs read live counters.** After a boot and any acts the counters of both timers are
bytes, and whatever is latched is the counter that has its place there, so that everywhere else a
program reads what is stored. After a step that does not serve a reset, a program that reads the
registers of timer 1 reads its counters, while what is stored there is what was last written since
the last reset, or zero. -/
theorem live_counters {bios flash : Array UInt8} {config : Config} {journal : Journal}
    {m : Machine} (h : Machine.boot bios flash config journal = .ok m) (acts : List Act) :
    let n := m.runActs acts
    (n.timer0.low.count ≤ 0xFF ∧ n.timer0.high.count ≤ 0xFF ∧
      n.timer1.low.count ≤ 0xFF ∧ n.timer1.high.count ≤ 0xFF) ∧
    (∀ address value, n.ram.latch? address = some value →
      address = Register.t0l ∧ value.toUInt16 = n.timer0.low.count ∨
      address = Register.t0h ∧ value.toUInt16 = n.timer0.high.count ∨
      address = Register.t1l ∧ value.toUInt16 = n.timer1.low.count ∨
      address = Register.t1h ∧ value.toUInt16 = n.timer1.high.count) ∧
    (∀ address : Nat, (∀ r ∈ [Register.t0l, Register.t0h, Register.t1l, Register.t1h],
      address % 512 ≠ r.toNat) → n.ram.read address = n.ram.readRaw address) ∧
    (n.stepServed ≠ some .reset →
      let k := n.step.1
      (k.register Register.t1l).toUInt16 = k.timer1.low.count ∧
      (k.register Register.t1h).toUInt16 = k.timer1.high.count ∧
      k.ram.readRaw Register.t1l.toNat =
        (m.written 0x1B [] (acts ++ [.step])).getLast?.getD 0 ∧
      k.ram.readRaw Register.t1h.toNat =
        (m.written 0x1D [] (acts ++ [.step])).getLast?.getD 0) := by
  intro n
  have hreach : Reachable n := (Reachable.boot h).runActs acts
  have hlive := hreach.live
  have hc := hlive.clocked
  refine ⟨⟨hc.timer0.low_le, hc.timer0.high_le, hc.timer1.low_le, hc.timer1.high_le⟩, ?_,
    fun address ha => hc.latches.read_eq_readRaw ha, ?_⟩
  · intro address value hv
    rcases hlive.latches address value hv with h0 | h1
    · rcases Timer.counter?_eq_some h0 with ⟨ha, hcount⟩ | ⟨ha, hcount⟩
      · rw [hc.timer0.layout_eq] at ha
        exact .inr (.inl ⟨ha, hcount⟩)
      · rw [hc.timer0.layout_eq] at ha
        exact .inl ⟨ha, hcount⟩
    · rcases Timer.counter?_eq_some h1 with ⟨ha, hcount⟩ | ⟨ha, hcount⟩
      · rw [hc.timer1.layout_eq] at ha
        exact .inr (.inr (.inr ⟨ha, hcount⟩))
      · rw [hc.timer1.layout_eq] at ha
        exact .inr (.inr (.inl ⟨ha, hcount⟩))
  · intro hs k
    have hshows := Machine.shows_step hreach.wired hs
    have hbounds := (Machine.Live.invariant.step hlive).clocked.timer1
    have hrun : k = m.runActs (acts ++ [.step]) := by
      rw [Machine.runActs, List.foldl_append]
      rfl
    have hholds {o : Fin 128} (ho : Ram.IsPlain o) :
        k.Holds o (m.written o [] (acts ++ [.step])) := by
      rw [hrun]
      exact (Machine.holds_boot h ho).runActs ho (Reachable.boot h).clocked _
    refine ⟨?_, ?_, ?_, ?_⟩
    · rw [Machine.register, Ram.read_of_latch? hshows.low]
      exact Timer.toUInt16_toUInt8 hbounds.low_le
    · rw [Machine.register, Ram.read_of_latch? hshows.high]
      exact Timer.toUInt16_toUInt8 hbounds.high_le
    · exact hholds (o := 0x1B) (by decide)
    · exact hholds (o := 0x1D) (by decide)

/-- A firmware that gives the low half of timer 1 a value to start from, and then starts it. -/
def reloadFirmware : Array UInt8 :=
  #[0x23, 0x1B, 0xF0, 0x23, 0x18, 0x40]

theorem live_counters_over_reload :
    let m := Machine.cold reloadFirmware (by decide)
    let k := (m.runActs [.step]).step.1
    k.timer1.low.count = 0xF2 ∧ (k.register Register.t1l).toUInt16 = 0xF2 ∧
      m.written 0x1B [] [.step, .step] = [0xF0] ∧ k.ram.readRaw Register.t1l.toNat = 0xF0 := by
  intro m k
  have hboot : Machine.boot reloadFirmware #[] {} {} = .ok m :=
    Machine.boot_firmware rfl (by decide) (by decide) (Nat.zero_le _)
  have hs : (m.runActs [.step]).stepServed ≠ some .reset := by decide +kernel
  have hcount : k.timer1.low.count = 0xF2 := by decide +kernel
  have hwritten : m.written 0x1B [] [.step, .step] = [0xF0] := by decide +kernel
  obtain ⟨hlow, -, hraw, -⟩ := (live_counters hboot [.step]).2.2.2 hs
  refine ⟨hcount, hlow.trans hcount, hwritten, hraw.trans ?_⟩
  show (m.written 0x1B [] [.step, .step]).getLast?.getD 0 = 0xF0
  rw [hwritten]
  rfl

end VisualMemory
