import VisualMemory.Proofs.Program.Stores
import VisualMemory.Proofs.Timer.Moment
import VisualMemory.Proofs.Timer.Setting

/-!
# The tone

Timer 1 tells the buzzer at each clock whether its low half sounds, and at each start of it the
reload value as the tone's period.

* `Buzzer.after`: what the buzzer makes of a clock. `Machine.buzzer_runActs`: and of those of a run.
* `Timer.lowStarts`: the clocks that start the low half.
* `buzzer_follows_timer1`: what the buzzer holds, in all runs.
* `Follows.tick_eq`: the clocks of a run as those of one timer under memories of their own.
* `low_times`: the times of the low half's overflows.
* `tone_times`: those times in all runs, and when they are those that the buzzer tells.
-/

namespace VisualMemory

open Interrupt (Controller)
open Timer (Moment)

/-! ## What the buzzer hears -/

/-- The buzzer after a clock of the timer that drives it. -/
def Buzzer.after (b : Buzzer) (x : Moment) : Buzzer where
  period := if x.control.lowRun && x.timer.low.clocks == 0 then x.reloads.low else b.period
  enabled := x.control.sounds

theorem Buzzer.cycles_eq_iff {b : Buzzer} {reload : UInt8} :
    b.cycles = 256 - reload.toNat ↔ b.period = reload := by
  have hlt := b.period.toNat_lt
  have hlt' := reload.toNat_lt
  rw [cycles, ← UInt8.toNat_inj]
  omega

namespace Timer

theorem Control.sounds_iff {c : Control} :
    c.sounds = true ↔ c.lowRun = true ∧ c.longMode = false := by
  rw [sounds, Bool.and_eq_true, Bool.not_eq_true']

theorem hear_tick (t : Timer) (ram : Ram) (c : Controller) (b : Buzzer) :
    (t.tick ram c).signals.foldl Buzzer.hear b =
      if t.drivesBuzzer then b.after ⟨t, ram⟩ else b := by
  have hperiod : (Moment.tick ⟨t, ram⟩).started.getD b.period = (b.after ⟨t, ram⟩).period :=
    apply_ite (Option.getD · b.period) ..
  rw [tick, hear_signals]
  exact congrArg (fun p => if t.drivesBuzzer then Buzzer.mk p (t.control ram).sounds else b) hperiod

theorem hear_step (t : Timer) (ram : Ram) (c : Controller) (b : Buzzer) :
    (t.step ram c).signals.foldl Buzzer.hear b =
      if t.drivesBuzzer then (t.moments ram).foldl Buzzer.after b else b := by
  unfold moments
  by_cases h : t.fires ram = true
  · rw [if_pos h, step_of_fires h]
    exact hear_tick (t.divided ram) ram c b
  · rw [if_neg h, step_of_not_fires h]
    exact (ite_self b).symm

end Timer

namespace Machine

theorem buzzer_recorded :
    Recorded .one fun m l n => m.Wired → n.Wired ∧ n.buzzer = l.foldl Buzzer.after m.buzzer where
  quiet h hw := ⟨⟨h.timer0 ▸ hw.timer0, h.timer1 ▸ hw.timer1⟩, h.buzzer⟩
  trans := by
    intro m n k l l' h h' hw
    obtain ⟨hn, hbuzzer⟩ := h hw
    obtain ⟨hk, hbuzzer'⟩ := h' hn
    refine ⟨hk, ?_⟩
    rw [hbuzzer', hbuzzer, List.foldl_append]
  stepTimer0 := by
    intro m hw
    have hdrives : m.timer0.drivesBuzzer = false := hw.timer0.drivesBuzzer
    refine ⟨Wired.invariant.stepTimer0 hw, ?_⟩
    rw [stepTimer0, takeTimer0_buzzer, Timer.hear_step, hdrives]
    rfl
  stepTimer1 := by
    intro m hw
    have hdrives : m.timer1.drivesBuzzer = true := hw.timer1.drivesBuzzer
    refine ⟨Wired.invariant.stepTimer1 hw, ?_⟩
    rw [stepTimer1, takeTimer1_buzzer, Timer.hear_step, hdrives]
    rfl
  tickTimer0 := by
    intro m hw
    have hdrives : m.timer0.drivesBuzzer = false := hw.timer0.drivesBuzzer
    refine ⟨Wired.invariant.tickTimer0 hw, ?_⟩
    rw [tickTimer0, takeTimer0_buzzer, Timer.hear_tick, hdrives]
    rfl
  tickTimer1 := by
    intro m hw
    have hdrives : m.timer1.drivesBuzzer = true := hw.timer1.drivesBuzzer
    refine ⟨Wired.invariant.tickTimer1 hw, ?_⟩
    rw [tickTimer1, takeTimer1_buzzer, Timer.hear_tick, hdrives]
    rfl

theorem buzzer_runActs {m : Machine} (h : m.Wired) (acts : List Act) :
    (m.runActs acts).buzzer = (m.moments .one acts).foldl Buzzer.after m.buzzer :=
  (buzzer_recorded.runActs m acts h).2

end Machine

/-! ## Starts -/

namespace Timer

/-- The clocks that start the low half: they see it run, and the clock before has seen it stopped.
`running` is what the clock before the first has seen. -/
def lowStarts (running : Bool) : List Moment → List Moment
  | [] => []
  | x :: rest =>
    let later := lowStarts x.control.lowRun rest
    if x.control.lowRun && !running then x :: later else later

theorem mem_of_mem_lowStarts {running : Bool} {l : List Moment} {x : Moment}
    (h : x ∈ lowStarts running l) : x ∈ l := by
  induction l generalizing running with
  | nil => exact h
  | cons y rest ih =>
    rw [lowStarts] at h
    split at h
    · rcases List.mem_cons.mp h with rfl | h
      · exact List.mem_cons_self ..
      · exact List.mem_cons_of_mem _ (ih h)
    · exact List.mem_cons_of_mem _ (ih h)

theorem Follows.period_eq {t u : Timer} {l : List Moment} (h : t.Follows l u) (b : Buzzer) :
    (l.foldl Buzzer.after b).period =
      ((lowStarts (t.low.clocks != 0) l).getLast?.map (·.reloads.low)).getD b.period := by
  induction l generalizing t b with
  | nil => rfl
  | cons x rest ih =>
    have hlow : x.timer.low = t.low := (bare_eq_iff.mp h.1).2.2.1
    have hseen : (x.next.low.clocks != 0) = x.control.lowRun := by
      rw [Bool.eq_iff_iff, bne_iff_ne, ne_eq, Moment.next, Moment.tick,
        Tick.clocks_low_eq_zero_iff, Bool.not_eq_false]
    rw [List.foldl_cons, ih h.2, hseen, lowStarts, Buzzer.after, hlow, bne, Bool.not_not]
    by_cases hstart : (x.control.lowRun && t.low.clocks == 0) = true
    · rw [if_pos hstart, if_pos hstart, List.getLast?_cons]
      cases (lowStarts x.control.lowRun rest).getLast? with
      | none => rfl
      | some y => rfl
    · rw [if_neg hstart, if_neg hstart]

end Timer

/-! ## Behind a step -/

namespace Machine

/-- The control register of timer 1 says whether the buzzer sounds, and whether the low half counts
as started. -/
structure InTune (m : Machine) : Prop where
  sounds : m.buzzer.enabled = (m.timer1.control m.ram).sounds
  stopped : m.timer1.low.clocks = 0 ↔ (m.timer1.control m.ram).lowRun = false

theorem inTune_stepTimer1 {m : Machine} (hw : m.Wired) : m.stepTimer1.InTune := by
  have hdrives : m.timer1.drivesBuzzer = true := hw.timer1.drivesBuzzer
  have hstep := hw.timer1.step_eq_tick m.ram m.interrupts
  have hcontrol := Timer.control_tick (.inr hw.timer1.layout) m.ram m.interrupts
  constructor
  · rw [stepTimer1, takeTimer1_buzzer, takeTimer1_timer1, takeTimer1_ram, hstep, Timer.hear_tick,
      hdrives]
    exact (congrArg Timer.Control.sounds hcontrol).symm
  · have hrun : (m.timer1.control (m.timer1.tick m.ram m.interrupts).ram).lowRun =
        (m.timer1.control m.ram).lowRun := by
      rw [hcontrol]
      rfl
    rw [stepTimer1, takeTimer1_timer1, takeTimer1_ram, hstep]
    show (Timer.Tick.of _ _ _ _).low.clocks = 0 ↔
      (m.timer1.control (m.timer1.tick m.ram m.interrupts).ram).lowRun = false
    rw [hrun]
    exact Timer.Tick.clocks_low_eq_zero_iff

theorem readRaw_t1cnt (ram : Ram) :
    ram.readRaw Register.t1cnt.toNat = ram.cell (.register 0x18) :=
  ram.readRaw_register 0x18

theorem control_timer1 {m : Machine} (hw : m.Wired) (ram : Ram) :
    m.timer1.control ram = .ofByte (ram.readRaw Register.t1cnt.toNat) := by
  have hl : m.timer1.layout = .timer1 := hw.timer1.layout
  rw [Timer.control, hl]
  rfl

theorem InTune.poll {m : Machine} (h : m.InTune) (hw : m.Wired) (hs : m.poll.2 ≠ some .reset) :
    m.poll.1.InTune := by
  have hq := quiet_poll m
  have hcontrol : m.poll.1.timer1.control m.poll.1.ram = m.timer1.control m.ram := by
    rw [hq.timer1, control_timer1 hw, control_timer1 hw, readRaw_t1cnt, readRaw_t1cnt,
      cell_poll_of_ne hs (by decide) (by decide)]
  constructor
  · rw [hcontrol, hq.buzzer, h.sounds]
  · rw [hcontrol, hq.timer1, h.stopped]

theorem inTune_step {m : Machine} (hw : m.Wired) (hs : m.stepServed ≠ some .reset) :
    m.step.1.InTune := by
  have hadvance : m.advance.1.Wired ∧ m.advance.1.InTune :=
    ⟨Wired.invariant.advance hw, hw.advance_of_stepTimer1 fun _ hn => inTune_stepTimer1 hn⟩
  exact hadvance.2.poll hadvance.1 hs

theorem buzzer_boot {bios flash : Array UInt8} {config : Config} {journal : Journal} {m : Machine}
    (h : boot bios flash config journal = .ok m) : m.buzzer = {} := by
  obtain ⟨rom, chip, -, -, rfl⟩ := boot_eq_ok h
  split
  · rfl
  · rfl

/-- After a boot and any acts the buzzer holds the reload value at the last start, or zero if there
has been none. -/
theorem period_of_boot {bios flash : Array UInt8} {config : Config} {journal : Journal}
    {m : Machine} (h : boot bios flash config journal = .ok m) (acts : List Act) :
    (m.runActs acts).buzzer.period = ((Timer.lowStarts false (m.moments .one acts)).getLast?.map
      (·.ram.readRaw Register.t1l.toNat)).getD 0 := by
  have hfollows : Timer.one.Follows (m.moments .one acts) ((m.runActs acts).timer .one) := by
    have hboot : m.timer .one = Timer.one := timer_boot h .one
    exact hboot ▸ m.follows .one acts
  rw [buzzer_runActs (Reachable.boot h).wired, buzzer_boot h, hfollows.period_eq]
  refine congrArg (Option.getD · 0) (Option.map_congr fun x hx => ?_)
  have hmem := Timer.mem_of_mem_lowStarts (List.mem_of_getLast? hx)
  have hl : x.timer.layout = .timer1 := hfollows.layout_eq hmem
  show x.ram.readRaw x.timer.layout.lowReload.toNat = _
  rw [hl]
  rfl

end Machine

/-- **The buzzer follows timer 1.** After a boot and any acts the buzzer's period is what the reload
register held at the last clock of timer 1 that saw the low half run while the clock before, if any,
saw it stopped; it is zero if there was none. After a step that does not serve a reset the buzzer
sounds exactly if the control register has the low half run and is not in long mode. -/
theorem buzzer_follows_timer1 {bios flash : Array UInt8} {config : Config} {journal : Journal}
    {m : Machine} (h : Machine.boot bios flash config journal = .ok m) (acts : List Act) :
    let n := m.runActs acts
    let starts := Timer.lowStarts false (m.moments .one acts)
    n.buzzer.period = (starts.getLast?.map (·.ram.readRaw Register.t1l.toNat)).getD 0 ∧
    (n.stepServed ≠ some .reset →
      let k := n.step.1
      let control := k.ram.readRaw Register.t1cnt.toNat
      (k.buzzer.enabled = true ↔ control.bit 6 = true ∧ control.bit 5 = false)) := by
  intro n starts
  refine ⟨Machine.period_of_boot h acts, ?_⟩
  intro hs k control
  have hw : n.Wired := (Reachable.boot h).wired.runActs acts
  rw [(Machine.inTune_step hw hs).sounds, Machine.control_timer1 hw.step]
  exact Timer.Control.sounds_iff

/-- A firmware that starts a tone, then gives timer 1 another reload value, and waits. -/
def retuneFirmware : Array UInt8 :=
  #[0x23, 0x1B, 0xFE, 0x23, 0x18, 0x40, 0x23, 0x1B, 0xFC, 0x01, 0xFE]

/-- After the third step the buzzer still holds the reload value of the start in the second. -/
theorem buzzer_follows_timer1_past_retuning :
    let m := Machine.cold retuneFirmware (by decide)
    let k := (m.runActs [.step, .step]).step.1
    k.buzzer.enabled = true ∧ k.ram.readRaw Register.t1cnt.toNat = 0x42 ∧
      (m.runActs [.step, .step, .step]).buzzer.period = 0xFE ∧
      k.ram.readRaw Register.t1l.toNat = 0xFC := by
  intro m k
  have hboot : Machine.boot retuneFirmware #[] {} {} = .ok m :=
    Machine.boot_firmware rfl (by decide) (by decide) (Nat.zero_le _)
  have hs : (m.runActs [.step, .step]).stepServed ≠ some .reset := by decide +kernel
  have hcontrol : k.ram.readRaw Register.t1cnt.toNat = 0x42 := by decide +kernel
  have hstart : ((Timer.lowStarts false (m.moments .one [.step, .step, .step])).getLast?.map
      (·.ram.readRaw Register.t1l.toNat)).getD 0 = 0xFE := by decide +kernel
  have hperiod := (buzzer_follows_timer1 hboot [.step, .step, .step]).1
  have hsounds : k.buzzer.enabled = true ↔ (k.ram.readRaw Register.t1cnt.toNat).bit 6 = true ∧
      (k.ram.readRaw Register.t1cnt.toNat).bit 5 = false :=
    (buzzer_follows_timer1 hboot [.step, .step]).2 hs
  rw [hcontrol] at hsounds
  exact ⟨hsounds.mpr (by decide), hcontrol, hperiod.trans hstart, by decide +kernel⟩

/-! ## Times -/

namespace Timer

/-- The memories that clocks see, one after the other, and another one from then on. -/
def seenBy (l : List Moment) (rest : Ram) (k : Nat) : Ram :=
  (l[k]?.map (·.ram)).getD rest

theorem after_succ (t : Timer) (seen : Nat → Ram) (k : Nat) :
    t.after seen (k + 1) = (t.tick (seen 0) {}).timer.after (fun j => seen (j + 1)) k := by
  induction k with
  | zero => rfl
  | succ k ih =>
    show ((t.after seen (k + 1)).tick (seen (k + 1)) {}).timer = _
    rw [ih]
    rfl

theorem clock_succ (t : Timer) (seen : Nat → Ram) (k : Nat) :
    t.clock seen (k + 1) = (t.tick (seen 0) {}).timer.clock (fun j => seen (j + 1)) k := by
  rw [clock, after_succ]
  rfl

theorem Moment.tick_congr {t u : Timer} (h : u.bare = t.bare) (ram : Ram) :
    (Moment.mk u ram).tick = (Moment.mk t ram).tick := by
  obtain ⟨hlayout, -, hlow, hhigh⟩ := bare_eq_iff.mp h
  simp only [tick, control, reloads, Timer.control, Timer.reloads, hlayout, hlow, hhigh]

theorem Follows.tick_eq {t u : Timer} {l : List Moment} (h : t.Follows l u) (rest : Ram) {k : Nat}
    {x : Moment} (hx : l[k]? = some x) : x.tick = t.clock (seenBy l rest) k := by
  induction l generalizing t k with
  | nil => cases hx
  | cons y later ih =>
    have hy : y.tick = t.clock (seenBy (y :: later) rest) 0 := Moment.tick_congr h.1 y.ram
    cases k with
    | zero =>
      cases hx
      exact hy
    | succ k =>
      have hnext : y.next.bare = (t.tick y.ram {}).timer.bare := by
        obtain ⟨hlayout, hdrives, -, -⟩ := bare_eq_iff.mp h.1
        rw [bare_eq_iff]
        exact ⟨hlayout, hdrives, congrArg Tick.low hy, congrArg Tick.high hy⟩
      rw [ih ((follows_congr hnext).mp h.2) hx, clock_succ]
      rfl

/-- A low half that runs by itself, always with the same reload value, overflows once in as many
clocks as that says. -/
theorem low_times {t : Timer} (hle : t.low.count ≤ 0xFF) {seen : Nat → Ram} {reload : UInt8}
    (hrun : ∀ k, (t.control (seen k)).lowRun = true)
    (hlong : ∀ k, (t.control (seen k)).longMode = false)
    (hreload : ∀ k, (t.reloads (seen k)).low = reload) :
    ∃ first < 256, ∀ k, (t.clock seen k).lowOverflow = true ↔
      ∃ c, k = first + c * (256 - reload.toNat) := by
  have hs (k : Nat) := start_after_le seen k (.inr hle) reload
  let left k := ((t.after seen k).low.start reload).room
  have hclock (k : Nat) : (t.clock seen k).lowOverflow = decide (left k = 1) ∧
      left (k + 1) = if left k = 1 then 256 - reload.toNat else left k - 1 := by
    obtain ⟨hover, hcount⟩ := Tick.low_alone (hlong k) (hrun k) (hreload k ▸ hs k)
    rw [hreload k] at hover hcount
    constructor
    · rw [clock, hover, decide_eq_decide, UInt16.room_eq_one_iff (hs k)]
    · show ((t.after seen (k + 1)).low.start reload).room = _
      rw [start_after_succ seen k (hrun k), clock, hcount, UInt16.room_next (hs k)]
  have hcounts : CountsDown left fun _ => 256 - reload.toNat := fun k => (hclock k).2
  have hperiod : 0 < 256 - reload.toNat := Nat.sub_pos_of_lt reload.toNat_lt
  have hfirst : 0 < left 0 := UInt16.room_pos (hs 0)
  have hfirstLe : left 0 ≤ 256 := Nat.sub_le ..
  refine ⟨left 0 - 1, by omega, fun k => ?_⟩
  rw [(hclock k).1, decide_eq_true_eq, hcounts.ends_iff_exists hperiod hfirst]
  refine exists_congr fun c => ?_
  omega

/-- Two memories agree in what makes the tone of a timer: the run bit of its low half, the mode bit
and the reload register. -/
structure SameTone (t : Timer) (ram ram' : Ram) : Prop where
  lowRun : (t.control ram').lowRun = (t.control ram).lowRun
  longMode : (t.control ram').longMode = (t.control ram).longMode
  reload : (t.reloads ram').low = (t.reloads ram).low

theorem sameTone_seenBy {t : Timer} {l : List Moment} {ram : Ram}
    (h : ∀ x ∈ l, t.SameTone ram x.ram) (k : Nat) : t.SameTone ram (seenBy l ram k) := by
  unfold seenBy
  cases hx : l[k]? with
  | none => exact ⟨rfl, rfl, rfl⟩
  | some x => exact h x (List.mem_of_getElem? hx)

theorem Follows.buzzer_eq {t u : Timer} {l : List Moment} (h : t.Follows l u)
    (hsounds : ∀ x ∈ l, x.control.sounds = true) (ht : t.low.clocks ≠ 0) {b : Buzzer}
    (hb : b.enabled = true) : l.foldl Buzzer.after b = b := by
  induction l generalizing t with
  | nil => rfl
  | cons x rest ih =>
    obtain ⟨hx, hrest⟩ := List.forall_mem_cons.mp hsounds
    have hlow : x.timer.low = t.low := (bare_eq_iff.mp h.1).2.2.1
    have hnext : x.next.low.clocks ≠ 0 := by
      intro hzero
      have hrun : x.control.lowRun = false := Tick.clocks_low_eq_zero_iff.mp hzero
      exact Bool.false_ne_true (hrun.symm.trans (Control.sounds_iff.mp hx).1)
    have hafter : b.after x = b := by
      rw [Buzzer.after, hlow, beq_false_of_ne ht, Bool.and_false, if_neg Bool.false_ne_true, hx,
        ← hb]
    rw [List.foldl_cons, hafter]
    exact ih h.2 hrest hnext

end Timer

/-- **The times of the tone.** Let a step after a boot and any acts leave the buzzer on, without
serving a reset, and let nobody change what makes the tone from then on. Then the low half of timer 1
overflows at some clock of the next 256, and from there on in periods that the reload register
decides; the buzzer stays as it is. In every step timer 1 is clocked once in each cycle. The buzzer
tells the right number of cycles exactly if the reload register is as it was at the last start. -/
theorem tone_times {bios flash : Array UInt8} {config : Config} {journal : Journal} {m : Machine}
    (h : Machine.boot bios flash config journal = .ok m) (acts more : List Act) :
    let n := m.runActs acts
    let k := n.step.1
    let ms := k.moments .one more
    let reload := k.ram.readRaw Register.t1l.toNat
    let period := 256 - reload.toNat
    let starts := Timer.lowStarts false (m.moments .one (acts ++ [.step]))
    n.stepServed ≠ some .reset → k.buzzer.enabled = true →
    (∀ x ∈ ms, k.timer1.SameTone k.ram x.ram) →
    (∃ first < 256, ∀ (i : Nat) (hi : i < ms.length),
      (ms[i].tick.lowOverflow = true ↔ ∃ c, i = first + c * period)) ∧
    (k.runActs more).buzzer = k.buzzer ∧
    (∀ later, ((k.runActs later).stepMoments .one).length = (k.runActs later).step.2) ∧
    (∀ clock, k.buzzer.tone clock = some (clock / k.buzzer.cycles.toFloat)) ∧
    (k.buzzer.cycles = period ↔
      (starts.getLast?.map (·.ram.readRaw Register.t1l.toNat)).getD 0 = reload) := by
  intro n k ms reload period starts hs henabled hkept
  have hreach : Reachable k := ((Reachable.boot h).runActs acts).act .step
  have htune : k.InTune := Machine.inTune_step ((Reachable.boot h).wired.runActs acts) hs
  have hfollows : k.timer1.Follows ms ((k.runActs more).timer .one) := k.follows .one more
  obtain ⟨hrun, hlong⟩ := Timer.Control.sounds_iff.mp (htune.sounds ▸ henabled)
  have hreload : (k.timer1.reloads k.ram).low = reload := by
    have hl : k.timer1.layout = .timer1 := hreach.wired.timer1.layout
    rw [Timer.reloads, hl]
    rfl
  refine ⟨?_, ?_, fun later => ?_, fun clock => if_pos henabled, ?_⟩
  · have hsame := Timer.sameTone_seenBy hkept
    obtain ⟨first, hlt, htimes⟩ := Timer.low_times hreach.clocked.timer1.low_le
      (fun i => (hsame i).lowRun.trans hrun) (fun i => (hsame i).longMode.trans hlong)
      (fun i => (hsame i).reload.trans hreload)
    refine ⟨first, hlt, fun i hi => ?_⟩
    rw [hfollows.tick_eq k.ram (List.getElem?_eq_getElem hi)]
    exact htimes i
  · rw [Machine.buzzer_runActs hreach.wired]
    refine hfollows.buzzer_eq ?_ ?_ henabled
    · intro x hx
      have hcontrol : x.control = k.timer1.control x.ram := by
        rw [Timer.Moment.control, Timer.control, hfollows.layout_eq hx, ← Timer.control]
      rw [hcontrol, Timer.Control.sounds_iff]
      exact ⟨(hkept x hx).lowRun.trans hrun, (hkept x hx).longMode.trans hlong⟩
    · rw [ne_eq, htune.stopped, hrun]
      exact Bool.noConfusion
  · exact Machine.length_stepMoments (hreach.runActs later).wired
  · have hk : k = m.runActs (acts ++ [.step]) := by
      rw [Machine.runActs_append]
      rfl
    have hperiod : k.buzzer.period =
        (starts.getLast?.map (·.ram.readRaw Register.t1l.toNat)).getD 0 := by
      rw [hk]
      exact Machine.period_of_boot h _
    rw [← hperiod]
    exact Buzzer.cycles_eq_iff

/-- A firmware that starts a tone, and waits. -/
def toneFirmware : Array UInt8 :=
  #[0x23, 0x1B, 0xFE, 0x23, 0x18, 0x40, 0x01, 0xFE]

/-- The low half goes through two bytes, and the buzzer says so. -/
theorem tone_times_of_two :
    let m := Machine.cold toneFirmware (by decide)
    let k := (m.runActs [.step]).step.1
    let ms := k.moments .one [.step, .step, .step, .step]
    k.buzzer.cycles = 2 ∧ ms.length = 8 ∧
      ∃ first < 256, ∀ (i : Nat) (hi : i < ms.length),
        (ms[i].tick.lowOverflow = true ↔ ∃ c, i = first + c * 2) := by
  intro m k ms
  have hboot : Machine.boot toneFirmware #[] {} {} = .ok m :=
    Machine.boot_firmware rfl (by decide) (by decide) (Nat.zero_le _)
  have hs : (m.runActs [.step]).stepServed ≠ some .reset := by decide +kernel
  have henabled : k.buzzer.enabled = true := by decide +kernel
  let tone (ram : Ram) : Bool × Bool × UInt8 :=
    ((k.timer1.control ram).lowRun, (k.timer1.control ram).longMode, (k.timer1.reloads ram).low)
  have htone : ms.map (fun x => tone x.ram) = List.replicate 8 (tone k.ram) := by decide +kernel
  have hkept : ∀ x ∈ ms, k.timer1.SameTone k.ram x.ram := by
    intro x hx
    have hmem : tone x.ram ∈ List.replicate 8 (tone k.ram) :=
      htone ▸ List.mem_map_of_mem hx
    have heq : tone x.ram = tone k.ram := List.eq_of_mem_replicate hmem
    simp only [tone, Prod.mk.injEq] at heq
    exact ⟨heq.1, heq.2.1, heq.2.2⟩
  have hreload : k.ram.readRaw Register.t1l.toNat = 0xFE := by decide +kernel
  have hstart : ((Timer.lowStarts false (m.moments .one ([.step] ++ [.step]))).getLast?.map
      (·.ram.readRaw Register.t1l.toNat)).getD 0 = 0xFE := by decide +kernel
  have h := tone_times hboot [.step] [.step, .step, .step, .step] hs henabled hkept
  have htimes : ∃ first < 256, ∀ (i : Nat) (hi : i < ms.length), (ms[i].tick.lowOverflow = true ↔
      ∃ c, i = first + c * (256 - (k.ram.readRaw Register.t1l.toNat).toNat)) := h.1
  have htold : k.buzzer.cycles = 256 - (k.ram.readRaw Register.t1l.toNat).toNat ↔
      _ = k.ram.readRaw Register.t1l.toNat := h.2.2.2.2
  rw [hreload] at htimes htold
  have hlength : ms.length = 8 := by decide +kernel
  exact ⟨htold.mpr hstart, hlength, htimes⟩

/-- Once the other firmware has changed the reload value its tone takes four cycles, and the buzzer
still says two. -/
theorem tone_not_retold :
    let m := Machine.cold retuneFirmware (by decide)
    let k := m.runActs [.step, .step, .step]
    let ms := k.moments .one [.step, .step, .step, .step]
    k.buzzer = ⟨0xFE, true⟩ ∧ k.buzzer.cycles = 2 ∧
      ms.map (fun x => (x.control.lowRun, x.control.longMode, x.reloads.low)) =
        List.replicate 8 (true, false, 0xFC) ∧
      ms.map (·.tick.lowOverflow) = [false, false, false, true, false, false, false, true] := by
  intro m k ms
  exact ⟨by decide +kernel, by decide +kernel, by decide +kernel, by decide +kernel⟩

end VisualMemory
