import VisualMemory.Proofs.Timer.Setting

/-!
# Periods

A timer that is started and then left under one setting overflows at times that its reload registers
alone decide. Whatever a counter counts by and restarts from, what is left of it counts down.

* `long_mode_period`: the halves chained.
* `eight_bit_periods`: the halves by themselves.
* `long_mode_by_two`: long mode with the high half standing still.
-/

namespace VisualMemory.Timer

open Interrupt (Controller)

/-! ## Long mode -/

/-- The clocks between two ends of the chained halves: the low half counts from its own reload value
at first, and then from the cascade value for each further count of the high half. -/
def Reloads.chainedPeriod (r : Reloads) : Nat :=
  (256 - r.low.toNat) + (255 - r.high.toNat) * (256 - r.cascade.toNat)

/-- What is left until the chained halves end. -/
def chainedLeft (t : Timer) (r : Reloads) : Nat :=
  chainLeft (256 - r.cascade.toNat) (t.low.start r.low).room t.high.count.room

theorem chainLeft_reloads (r : Reloads) :
    chainLeft (256 - r.cascade.toNat) (256 - r.low.toNat) (256 - r.high.toNat) =
      r.chainedPeriod := by
  have hslow : 256 - r.high.toNat - 1 = 255 - r.high.toNat := by omega
  rw [chainLeft, hslow, Reloads.chainedPeriod]

section

variable {t : Timer} {seen : Nat → Ram} {s : Setting} (hseen : ∀ k, t.setting (seen k) = s)
  (hmode : s.lowRun = true ∧ s.highRun = true ∧ s.longMode = true) (hlow : t.low.clocks = 0)
  (hhigh : t.high.count = s.reloads.high.toUInt16)

include hseen hmode hlow hhigh

/-- The halves end together if one clock is left. Then the count starts anew. -/
theorem chained_clock (k : Nat) :
    (t.clock seen k).highOverflow = decide ((t.after seen k).chainedLeft s.reloads = 1) ∧
    (t.after seen (k + 1)).chainedLeft s.reloads =
      (if (t.after seen k).chainedLeft s.reloads = 1 then s.reloads.chainedPeriod
      else (t.after seen k).chainedLeft s.reloads - 1) ∧
    ((t.after seen k).chainedLeft s.reloads = 1 →
      (t.clock seen k).low.count = s.reloads.low.toUInt16 ∧
      (t.clock seen k).high.count = s.reloads.high.toUInt16) := by
  have hrun : (t.control (seen k)).lowRun = true :=
    (congrArg Setting.lowRun (hseen k)).trans hmode.1
  have hrunHigh : (t.control (seen k)).highRun = true :=
    (congrArg Setting.highRun (hseen k)).trans hmode.2.1
  have hlong : (t.control (seen k)).longMode = true :=
    (congrArg Setting.longMode (hseen k)).trans hmode.2.2
  have hs := start_after_le seen k (.inl hlow) s.reloads.low
  have hh := high_after_le seen k (hhigh ▸ toUInt16_le _)
  obtain ⟨hover, hlowCount, hhighCount⟩ := Tick.chained hlong hrun hs hrunHigh hh
  rw [← clock_eq seen k (hseen k)] at hover hlowCount hhighCount
  have hw : 0 < 256 - s.reloads.cascade.toNat := Nat.sub_pos_of_lt s.reloads.cascade.toNat_lt
  have hend : (t.after seen k).chainedLeft s.reloads = 1 ↔
      (t.after seen k).low.start s.reloads.low = 0xFF ∧ (t.after seen k).high.count = 0xFF := by
    rw [chainedLeft, chainLeft_eq_one_iff hw (UInt16.room_pos hs) (UInt16.room_pos hh),
      UInt16.room_eq_one_iff hs, UInt16.room_eq_one_iff hh]
  refine ⟨?_, ?_, ?_⟩
  · rw [hover, decide_eq_decide, hend]
  · rw [← chainLeft_reloads, chainedLeft, start_after_succ seen k hrun, high_after_succ]
    refine chainLeft_step hw (UInt16.room_pos hs) (UInt16.room_pos hh) ?_ ?_
    · simp only [hlowCount, apply_ite UInt16.room, UInt16.room_toUInt16, UInt16.room_add_one hs,
        UInt16.room_eq_one_iff hs, UInt16.room_eq_one_iff hh]
    · simp only [hhighCount, apply_ite UInt16.room, UInt16.room_toUInt16, UInt16.room_add_one hh,
        UInt16.room_eq_one_iff hs, UInt16.room_eq_one_iff hh]
  · intro hleft
    obtain ⟨hlast, hhighLast⟩ := hend.mp hleft
    rw [hlowCount, hhighCount, if_pos hlast, if_pos hlast, if_pos hhighLast, if_pos hhighLast]
    exact ⟨rfl, rfl⟩

end

/-- **The period of long mode.** Let a timer whose last clock, if any, saw the low half stopped, and
whose high half is at its reload value, run with both halves chained, and let nobody change its
setting from then on. Then the clocks that are multiples of the period, and no others, end the count:
they record an overflow in both flags, ask for service of the high source if its interrupt is
enabled, and leave both halves at their reload values. All other flags and requests are left as they
were before the clock. -/
theorem long_mode_period {t : Timer} (hl : t.layout = .timer0 ∨ t.layout = .timer1) {s : Setting}
    (hmode : s.lowRun = true ∧ s.highRun = true ∧ s.longMode = true) (hlow : t.low.clocks = 0)
    (hhigh : t.high.count = s.reloads.high.toUInt16) {seen : Nat → Ram}
    (hseen : ∀ k, t.setting (seen k) = s) (k : Nat) (c : Controller) :
    let period := s.reloads.chainedPeriod
    let before := t.control (seen k)
    let o := (t.after seen k).tick (seen k) c
    t.control o.ram = { before with
      lowOverflow := before.lowOverflow || decide (period ∣ k + 1)
      highOverflow := before.highOverflow || decide (period ∣ k + 1) } ∧
    o.interrupts =
      (if period ∣ k + 1 ∧ s.highIrqEnable = true then c.raise t.layout.highSource else c) ∧
    (period ∣ k + 1 → o.timer.low.count = s.reloads.low.toUInt16 ∧
      o.timer.high.count = s.reloads.high.toUInt16) := by
  intro period before o
  have hperiod : 0 < period := by
    have := s.reloads.low.toNat_lt
    show 0 < 256 - s.reloads.low.toNat + _
    omega
  have hcounts : CountsDown (fun k => (t.after seen k).chainedLeft s.reloads) fun _ => period :=
    fun k => (chained_clock hseen hmode hlow hhigh k).2.1
  have hfirst : t.chainedLeft s.reloads = period := by
    rw [chainedLeft, Half.start_of_unstarted hlow, hhigh, UInt16.room_toUInt16,
      UInt16.room_toUInt16, chainLeft_reloads]
  have hend := hcounts.ends_iff_dvd hperiod hfirst k
  obtain ⟨hover, -, hreload⟩ := chained_clock hseen hmode hlow hhigh k
  rw [decide_eq_decide.mpr hend] at hover
  obtain ⟨hflags, hasked⟩ := reports_of_long seen k hl (hseen k) hmode.2.2 hover c
  refine ⟨hflags, hasked, ?_⟩
  intro hdvd
  have hcount := hreload (hend.mpr hdvd)
  rw [← low_after_succ, ← high_after_succ] at hcount
  exact hcount

/-- The low half goes through two bytes at first and then through three, the high half through
two. -/
def shortReloads : Reloads :=
  ⟨0xFE, 0xFE, 0xFD⟩

/-- Timer 1 before its halves are chained. -/
def readyToChain : Timer :=
  (one.tick (memoryOf .timer1 0 shortReloads) {}).timer

theorem long_mode_period_of_five :
    let seen := clearingFlags .timer1 0xE5 shortReloads
    let o k := (readyToChain.after seen k).tick (seen k) {}
    readyToChain.control (o 3).ram = readyToChain.control (seen 3) ∧ (o 3).interrupts = {} ∧
      (o 4).interrupts.pending = [.t1hlov] ∧ (o 4).timer.low.count = 0xFE ∧
      (o 4).timer.high.count = 0xFE ∧ (o 999999).interrupts.pending = [.t1hlov] := by
  intro seen o
  obtain ⟨hlow, hhigh⟩ := stopped_tick one (memoryOf .timer1 0 shortReloads) {}
    (by decide +kernel) (by decide +kernel)
  have hseen (k : Nat) :
      readyToChain.setting (seen k) = ⟨true, true, true, true, true, shortReloads⟩ := by
    show readyToChain.setting (clearingFlags ..) = _
    unfold clearingFlags
    split
    · decide +kernel
    · decide +kernel
  have h (k : Nat) := long_mode_period (.inr rfl) ⟨rfl, rfl, rfl⟩ hlow
    (hhigh.trans (by decide +kernel)) hseen k {}
  refine ⟨(h 3).1.trans (by decide +kernel), (h 3).2.1.trans (if_neg (by decide +kernel)), ?_,
    ((h 4).2.2 (by decide +kernel)).1, ((h 4).2.2 (by decide +kernel)).2, ?_⟩
  · exact (congrArg Controller.pending ((h 4).2.1.trans (if_pos (by decide +kernel)))).trans
      (by decide +kernel)
  · exact (congrArg Controller.pending ((h 999999).2.1.trans (if_pos (by decide +kernel)))).trans
      (by decide +kernel)

/-! ## The halves by themselves -/

section

variable {t : Timer} {seen : Nat → Ram} {s : Setting} (hseen : ∀ k, t.setting (seen k) = s)
  (hlong : s.longMode = false)

include hseen hlong

theorem low_clock_alone (hlow : t.low.clocks = 0) (k : Nat) :
    (t.clock seen k).lowOverflow =
      (s.lowRun && decide (256 - s.reloads.low.toNat ∣ k + 1)) ∧
    (t.clock seen k).low.count.toNat = s.reloads.low.toNat +
      (if s.lowRun then (k + 1) % (256 - s.reloads.low.toNat) else 0) := by
  have hlongAt (k : Nat) : (t.control (seen k)).longMode = false :=
    (congrArg Setting.longMode (hseen k)).trans hlong
  have hrunAt (k : Nat) : (t.control (seen k)).lowRun = s.lowRun :=
    congrArg Setting.lowRun (hseen k)
  cases hrun : s.lowRun with
  | false =>
    obtain ⟨hover, hcount⟩ := Tick.low_stopped_alone (hlongAt k) ((hrunAt k).trans hrun)
    rw [clock_eq seen k (hseen k), hover, hcount]
    simp
  | true =>
    have hs (k : Nat) := start_after_le seen k (.inl hlow) s.reloads.low
    have hclock (k : Nat) : (t.clock seen k).lowOverflow =
          decide ((t.after seen k).low.start s.reloads.low = 0xFF) ∧
        (t.clock seen k).low.count =
          if (t.after seen k).low.start s.reloads.low = 0xFF then s.reloads.low.toUInt16
          else (t.after seen k).low.start s.reloads.low + 1 := by
      rw [clock_eq seen k (hseen k)]
      exact Tick.low_alone (hlongAt k) ((hrunAt k).trans hrun) (hs k)
    have hnext (k : Nat) := (start_after_succ seen k ((hrunAt k).trans hrun) s.reloads.low).trans
      (hclock k).2
    have hcounts := UInt16.counts_up hs (Half.start_of_unstarted hlow _) hnext
    rw [← start_after_succ seen k ((hrunAt k).trans hrun) s.reloads.low, (hcounts (k + 1)).2,
      (hclock k).1]
    simp [(hcounts k).1]

theorem high_clock_alone (hhigh : t.high.count = s.reloads.high.toUInt16) (k : Nat) :
    (t.clock seen k).highOverflow =
      (s.highRun && decide (256 - s.reloads.high.toNat ∣ k + 1)) ∧
    (t.clock seen k).high.count.toNat = s.reloads.high.toNat +
      (if s.highRun then (k + 1) % (256 - s.reloads.high.toNat) else 0) := by
  have hlongAt (k : Nat) : (t.control (seen k)).longMode = false :=
    (congrArg Setting.longMode (hseen k)).trans hlong
  have hrunAt (k : Nat) : (t.control (seen k)).highRun = s.highRun :=
    congrArg Setting.highRun (hseen k)
  cases hrun : s.highRun with
  | false =>
    obtain ⟨hover, hcount⟩ := Tick.high_stopped_alone (hlongAt k) ((hrunAt k).trans hrun)
    rw [clock_eq seen k (hseen k), hover, hcount]
    simp
  | true =>
    have hh (k : Nat) := high_after_le seen k (hhigh ▸ toUInt16_le _)
    have hclock (k : Nat) : (t.clock seen k).highOverflow =
          decide ((t.after seen k).high.count = 0xFF) ∧
        (t.clock seen k).high.count =
          if (t.after seen k).high.count = 0xFF then s.reloads.high.toUInt16
          else (t.after seen k).high.count + 1 := by
      rw [clock_eq seen k (hseen k)]
      exact Tick.high_alone (hlongAt k) ((hrunAt k).trans hrun) (hh k)
    have hnext (k : Nat) := (congrArg Half.count (high_after_succ seen k)).trans (hclock k).2
    have hcounts := UInt16.counts_up hh hhigh hnext
    rw [← high_after_succ, (hcounts (k + 1)).2, (hclock k).1]
    simp [(hcounts k).1]

end

/-- **The periods outside long mode.** Let a timer whose last clock saw both halves stopped be run in
any of its halves, each for itself, and let nobody change its setting from then on. Then each half
that runs goes through the bytes from its reload value on, around and around. The clocks that bring
it back there record its overflow, and ask for service of its source if its interrupt is enabled. A
half that stands still stays at its reload value. All other flags and requests are left as they were
before the clock. -/
theorem eight_bit_periods {t : Timer} (hl : t.layout = .timer0 ∨ t.layout = .timer1) {s : Setting}
    (hmode : s.longMode = false) (hlow : t.low.clocks = 0)
    (hhigh : t.high.count = s.reloads.high.toUInt16) {seen : Nat → Ram}
    (hseen : ∀ k, t.setting (seen k) = s) (k : Nat) (c : Controller) :
    let lowPeriod := 256 - s.reloads.low.toNat
    let highPeriod := 256 - s.reloads.high.toNat
    let lowOver := s.lowRun && decide (lowPeriod ∣ k + 1)
    let highOver := s.highRun && decide (highPeriod ∣ k + 1)
    let before := t.control (seen k)
    let o := (t.after seen k).tick (seen k) c
    o.timer.low.count.toNat =
      s.reloads.low.toNat + (if s.lowRun then (k + 1) % lowPeriod else 0) ∧
    o.timer.high.count.toNat =
      s.reloads.high.toNat + (if s.highRun then (k + 1) % highPeriod else 0) ∧
    t.control o.ram = { before with
      lowOverflow := before.lowOverflow || lowOver
      highOverflow := before.highOverflow || highOver } ∧
    o.interrupts = ((if lowOver && s.lowIrqEnable then [t.layout.lowSource] else []) ++
      (if highOver && s.highIrqEnable then [t.layout.highSource] else [])).foldl (·.raise ·) c := by
  intro lowPeriod highPeriod lowOver highOver before o
  obtain ⟨hlowOver, hlowCount⟩ := low_clock_alone hseen hmode hlow k
  obtain ⟨hhighOver, hhighCount⟩ := high_clock_alone hseen hmode hhigh k
  have hlong : before.longMode = false := (congrArg Setting.longMode (hseen k)).trans hmode
  refine ⟨?_, ?_, ?_, ?_⟩
  · rw [← low_after_succ] at hlowCount
    exact hlowCount
  · rw [← high_after_succ] at hhighCount
    exact hhighCount
  · rw [control_ram_after seen k hl, Tick.control, hlowOver, hhighOver, hlong, Bool.and_false,
      Bool.or_false]
  · have hlowIrq : before.lowIrqEnable = s.lowIrqEnable :=
      congrArg Setting.lowIrqEnable (hseen k)
    have hhighIrq : before.highIrqEnable = s.highIrqEnable :=
      congrArg Setting.highIrqEnable (hseen k)
    rw [interrupts_after, requests, hlowOver, hhighOver, hlowIrq, hhighIrq]

/-- Timer 0 before its halves are run side by side, through two bytes and through three. -/
def readySideBySide : Timer :=
  (zero.tick (memoryOf .timer0 0 ⟨0xFE, 0xFD, 0xFE⟩) {}).timer

theorem eight_bit_periods_of_two_and_three :
    let seen := clearingFlags .timer0 0xC5 ⟨0xFE, 0xFD, 0xFE⟩
    let o k := (readySideBySide.after seen k).tick (seen k) {}
    (o 3).timer.low.count.toNat = 0xFE ∧ (o 3).timer.high.count.toNat = 0xFE ∧
      (o 3).interrupts.pending = [.int2] ∧ (o 5).interrupts.pending = [.int2, .t0hov] ∧
      (o 6).timer.low.count.toNat = 0xFF ∧ (o 6).interrupts.pending = [] ∧
      readySideBySide.control (o 6).ram = readySideBySide.control (seen 6) ∧
      (o 999998).interrupts.pending = [.t0hov] := by
  intro seen o
  obtain ⟨hlow, hhigh⟩ := stopped_tick zero (memoryOf .timer0 0 ⟨0xFE, 0xFD, 0xFE⟩) {}
    (by decide +kernel) (by decide +kernel)
  have hseen (k : Nat) :
      readySideBySide.setting (seen k) = ⟨true, true, false, true, true, ⟨0xFE, 0xFD, 0xFE⟩⟩ := by
    show readySideBySide.setting (clearingFlags ..) = _
    unfold clearingFlags
    split
    · decide +kernel
    · decide +kernel
  have h (k : Nat) := eight_bit_periods (.inl rfl) rfl hlow (hhigh.trans (by decide +kernel))
    hseen k {}
  have hpending (k : Nat) := congrArg Controller.pending (h k).2.2.2
  exact ⟨(h 3).1, (h 3).2.1, (hpending 3).trans (by decide +kernel),
    (hpending 5).trans (by decide +kernel), (h 6).1, (hpending 6).trans (by decide +kernel),
    (h 6).2.2.1.trans (by decide +kernel), (hpending 999998).trans (by decide +kernel)⟩

/-! ## Long mode with the high half standing still -/

/-- The next clock takes the low half past its end. -/
def lowWraps (t : Timer) (ram : Ram) : Bool :=
  (Tick.advanceLow (t.control ram) (t.reloads ram) t.low).isOver

section

variable {t : Timer} {seen : Nat → Ram} {s : Setting} (hseen : ∀ k, t.setting (seen k) = s)
  (hmode : s.lowRun = true ∧ s.highRun = false ∧ s.longMode = true) (hlow : t.low.clocks = 0)

include hseen hmode hlow

theorem clock_by_two (k : Nat) :
    let r := s.reloads
    let wraps := (t.after seen k).lowWraps (seen k)
    (wraps = true ↔ ((t.after seen k).low.start r.low).pairs = 1) ∧
    (t.clock seen k).highOverflow = decide (wraps = true ∧ r.high = 0xFF) ∧
    (t.clock seen k).low.count =
      (if wraps then (if r.high = 0xFF then r.low else r.cascade).toUInt16
      else (t.after seen k).low.start r.low + 2) ∧
    (t.clock seen k).high.count =
      (if wraps = true ∧ r.high ≠ 0xFF then r.high.toUInt16 + 1 else r.high.toUInt16) := by
  intro r wraps
  have hrun : (t.control (seen k)).lowRun = true :=
    (congrArg Setting.lowRun (hseen k)).trans hmode.1
  have hrunHigh : (t.control (seen k)).highRun = false :=
    (congrArg Setting.highRun (hseen k)).trans hmode.2.1
  have hlong : (t.control (seen k)).longMode = true :=
    (congrArg Setting.longMode (hseen k)).trans hmode.2.2
  have hs := start_after_le seen k (.inl hlow) r.low
  have hreloads : t.reloads (seen k) = r := congrArg Setting.reloads (hseen k)
  obtain ⟨hwraps, hover, hlowCount, hhighCount⟩ :=
    Tick.by_two hlong hrun hs hrunHigh
  rw [← clock_eq seen k (hseen k)] at hover hlowCount hhighCount
  have hend : wraps = true ↔ 0xFE ≤ (t.after seen k).low.start r.low := by
    show (Tick.advanceLow _ _ _).isOver = true ↔ _
    rw [control_after, reloads_after, hreloads, hwraps, decide_eq_true_eq]
  simp only [hend]
  exact ⟨(UInt16.pairs_eq_one_iff hs).symm, hover, hlowCount, hhighCount⟩

theorem pairs_countsDown :
    CountsDown (fun k => ((t.after seen k).low.start s.reloads.low).pairs)
      fun _ => (if s.reloads.high = 0xFF then s.reloads.low else s.reloads.cascade).toUInt16.pairs := by
  intro k
  have hrun : (t.control (seen k)).lowRun = true :=
    (congrArg Setting.lowRun (hseen k)).trans hmode.1
  obtain ⟨hwraps, -, hcount, -⟩ := clock_by_two hseen hmode hlow k
  have hs := start_after_le seen k (.inl hlow) s.reloads.low
  simp only [start_after_succ seen k hrun, hcount, hwraps, apply_ite UInt16.pairs,
    UInt16.pairs_add_two hs]

end

/-- **Long mode without a running high half.** Let a timer whose last clock, if any, saw the low half
stopped run in long mode with the high half standing still, and let nobody change its setting from
then on. Then the low half counts by two. It first wraps after half of what is left above its own
reload value, rounded up, and then each time after half of what is left above the cascade value. The
high half is one above its reload value after the clocks that wrap, and at it after all others. No
overflow is ever recorded, and no service asked for. But if the high half's reload value is the last
byte then each wrap is an overflow of the timer, and the low half restarts from its own reload
value. -/
theorem long_mode_by_two {t : Timer} (hl : t.layout = .timer0 ∨ t.layout = .timer1) {s : Setting}
    (hmode : s.lowRun = true ∧ s.highRun = false ∧ s.longMode = true) (hlow : t.low.clocks = 0)
    {seen : Nat → Ram} (hseen : ∀ k, t.setting (seen k) = s) (k : Nat) (c : Controller) :
    let r := s.reloads
    let first := (256 - r.low.toNat) ⌈/⌉ 2
    let later := (256 - r.cascade.toNat) ⌈/⌉ 2
    let u := t.after seen k
    let before := t.control (seen k)
    let o := u.tick (seen k) c
    (r.high ≠ 0xFF →
      (u.lowWraps (seen k) = true ↔ ∃ m, k + 1 = first + m * later) ∧
      o.timer.low.count =
        (if u.lowWraps (seen k) then r.cascade.toUInt16 else u.low.start r.low + 2) ∧
      o.timer.high.count.toNat = r.high.toNat + (if u.lowWraps (seen k) then 1 else 0) ∧
      t.control o.ram = before ∧ o.interrupts = c) ∧
    (r.high = 0xFF →
      t.control o.ram = { before with
        lowOverflow := before.lowOverflow || decide (first ∣ k + 1)
        highOverflow := before.highOverflow || decide (first ∣ k + 1) } ∧
      o.interrupts =
        (if first ∣ k + 1 ∧ s.highIrqEnable = true then c.raise t.layout.highSource else c) ∧
      (first ∣ k + 1 → o.timer.low.count = r.low.toUInt16 ∧ o.timer.high.count = 0xFF)) := by
  intro r first later u before o
  have hcounts := pairs_countsDown hseen hmode hlow
  have hfirst : (t.low.start r.low).pairs = first := by
    rw [Half.start_of_unstarted hlow, UInt16.pairs, UInt16.room_toUInt16]
  have hlater : r.cascade.toUInt16.pairs = later := by rw [UInt16.pairs, UInt16.room_toUInt16]
  have hfirstPos : 0 < first := hfirst ▸ UInt16.pairs_pos (Half.start_le (.inl hlow) r.low)
  have hlaterPos : 0 < later := hlater ▸ UInt16.pairs_pos (toUInt16_le r.cascade)
  obtain ⟨hwraps, hover, hlowCount, hhighCount⟩ := clock_by_two hseen hmode hlow k
  rw [← low_after_succ] at hlowCount
  rw [← high_after_succ] at hhighCount
  constructor
  · intro hhigh
    rw [if_neg hhigh, hlater] at hcounts
    have hend := hcounts.ends_iff_exists hlaterPos (hfirst ▸ hfirstPos) k
    have hnever : ¬ (u.lowWraps (seen k) = true ∧ r.high = 0xFF) := fun h => hhigh h.2
    obtain ⟨hflags, hasked⟩ := reports_of_long seen k hl (hseen k) hmode.2.2 hover c
    rw [decide_eq_false hnever, Bool.or_false, Bool.or_false] at hflags
    rw [if_neg fun h => hnever h.1] at hasked
    refine ⟨?_, ?_, ?_, hflags, hasked⟩
    · rw [hwraps, ← hfirst]
      exact hend
    · rw [if_neg hhigh] at hlowCount
      exact hlowCount
    · show (t.after seen (k + 1)).high.count.toNat = _
      rw [hhighCount]
      by_cases hw : u.lowWraps (seen k) = true
      · rw [if_pos ⟨hw, hhigh⟩, if_pos hw, UInt16.toNat_add_one (toUInt16_le r.high),
          UInt8.toNat_toUInt16]
      · rw [if_neg fun h => hw h.1, if_neg hw, UInt8.toNat_toUInt16, Nat.add_zero]
  · intro hhigh
    have hreload : r.low.toUInt16.pairs = first := by rw [UInt16.pairs, UInt16.room_toUInt16]
    rw [if_pos hhigh, hreload] at hcounts
    have hend : u.lowWraps (seen k) = true ↔ first ∣ k + 1 :=
      hwraps.trans (hcounts.ends_iff_dvd hfirstPos hfirst k)
    have hover' : (t.clock seen k).highOverflow = decide (first ∣ k + 1) := by
      rw [hover, decide_eq_decide, hend]
      exact and_iff_left hhigh
    obtain ⟨hflags, hasked⟩ := reports_of_long seen k hl (hseen k) hmode.2.2 hover' c
    refine ⟨hflags, hasked, ?_⟩
    intro hdvd
    rw [if_pos (hend.mpr hdvd), if_pos hhigh] at hlowCount
    rw [if_neg fun h => h.2 hhigh, toUInt16_eq_last.mpr hhigh] at hhighCount
    exact ⟨hlowCount, hhighCount⟩

/-- Timer 1 before its low half runs in long mode, with room for five more counts at first and for
four later, under a high half that has come to `high`. -/
def readyByTwo (high : UInt8) : Timer :=
  (one.tick (memoryOf .timer1 0 ⟨0xFB, high, 0xFC⟩) {}).timer

theorem long_mode_by_two_of_five :
    let seen high := clearingFlags .timer1 0x65 ⟨0xFB, high, 0xFC⟩
    let o high k := ((readyByTwo high).after (seen high) k).tick (seen high k) {}
    (o 0x10 1).timer.high.count.toNat = 0x10 ∧ (o 0x10 2).timer.high.count.toNat = 0x11 ∧
      (o 0x10 2).timer.low.count = 0xFC ∧ (o 0x10 1000000).timer.high.count.toNat = 0x11 ∧
      (o 0x10 1000000).interrupts = {} ∧
      (o 0xFF 2).timer.low.count = 0xFB ∧ (o 0xFF 2).interrupts.pending = [.t1hlov] ∧
      (o 0xFF 1000000).interrupts = {} := by
  intro seen o
  have hseen (high : UInt8) (hh : high = 0x10 ∨ high = 0xFF) (k : Nat) :
      (readyByTwo high).setting (seen high k) =
        ⟨false, true, true, true, true, ⟨0xFB, high, 0xFC⟩⟩ := by
    show (readyByTwo high).setting (clearingFlags ..) = _
    unfold clearingFlags
    rcases hh with rfl | rfl <;> split <;> decide +kernel
  have hlow (high : UInt8) (hh : high = 0x10 ∨ high = 0xFF) :
      (readyByTwo high).low.clocks = 0 := by
    rcases hh with rfl | rfl <;> decide +kernel
  have hwrap (k : Nat) := (long_mode_by_two (.inr rfl) ⟨rfl, rfl, rfl⟩ (hlow 0x10 (.inl rfl))
    (hseen 0x10 (.inl rfl)) k {}).1 (by decide)
  have hover (k : Nat) := (long_mode_by_two (.inr rfl) ⟨rfl, rfl, rfl⟩ (hlow 0xFF (.inr rfl))
    (hseen 0xFF (.inr rfl)) k {}).2 rfl
  have hfirst : (256 - (0xFB : UInt8).toNat) ⌈/⌉ 2 = 3 := by decide +kernel
  have hlater : (256 - (0xFC : UInt8).toNat) ⌈/⌉ 2 = 2 := by decide +kernel
  dsimp only at hwrap hover
  rw [hfirst, hlater] at hwrap
  rw [hfirst] at hover
  have hbefore : ¬ ((readyByTwo 0x10).after (seen 0x10) 1).lowWraps (seen 0x10 1) = true := by
    intro hw
    obtain ⟨m, hm⟩ := (hwrap 1).1.mp hw
    omega
  have hthird := (hwrap 2).1.mpr ⟨0, rfl⟩
  have hlate := (hwrap 1000000).1.mpr ⟨499999, by decide⟩
  have hoverThird := (hover 2).2.1.trans (if_pos (by decide))
  exact ⟨(hwrap 1).2.2.1.trans (congrArg _ (if_neg hbefore)),
    (hwrap 2).2.2.1.trans (congrArg _ (if_pos hthird)), (hwrap 2).2.1.trans (if_pos hthird),
    (hwrap 1000000).2.2.1.trans (congrArg _ (if_pos hlate)), (hwrap 1000000).2.2.2.2,
    ((hover 2).2.2 (by decide)).1,
    (congrArg Controller.pending hoverThird).trans (by decide +kernel),
    (hover 1000000).2.1.trans (if_neg (by decide))⟩

end VisualMemory.Timer
