import VisualMemory.Proofs.Act
import VisualMemory.Proofs.Buzzer
import VisualMemory.Proofs.Interrupt.Poll
import VisualMemory.Proofs.Program.Reading
import VisualMemory.Proofs.Timer.Alike

/-!
# Machines that go on alike

Neither an instruction nor a poll looks at the timers, the buzzer, the clock's frequency or the
journal, and the timers are read again from their registers except in what `Timer.Alike` says.

* `Machine.Same`: the same machine but for what is looked at by neither.
* `Machine.Twin`: besides, the timers are twins. One lemma for each part of a step, and from them
  `Twin.step`, `Twin.act` and `Twin.runActs`: twins stay twins.
* `Twin.step_cycles`, `Twin.stepServed_eq`, `Twin.enabled_step`: a step of twins takes the same
  time, serves the same source and leaves the buzzer on or off alike.
-/

namespace VisualMemory

/-! ## Aside -/

/-- What neither an instruction nor a poll looks at. -/
structure Aside where
  frequency : Float
  timer0 : Timer
  timer1 : Timer
  buzzer : Buzzer
  debug : Bool
  journal : Journal

namespace Machine

def aside (m : Machine) : Aside :=
  ⟨m.cpu.frequency, m.timer0, m.timer1, m.buzzer, m.debug, m.journal⟩

def put (m : Machine) (e : Aside) : Machine :=
  { m with
    cpu := { m.cpu with frequency := e.frequency }
    timer0 := e.timer0
    timer1 := e.timer1
    buzzer := e.buzzer
    debug := e.debug
    journal := e.journal }

/-- `n` is `m` with at most something else aside. -/
def Same (m n : Machine) : Prop :=
  n = m.put n.aside

theorem Same.eq_put {m n : Machine} (h : Same m n) : ∃ e, n = m.put e :=
  ⟨_, h⟩

/-! ## Instructions and polls -/

theorem Same.setFlag {m n : Machine} (h : Same m n) (f : Flag) (on : Bool) :
    Same (m.setFlag f on) (n.setFlag f on) := by
  obtain ⟨e, rfl⟩ := h.eq_put
  exact Eq.refl _

theorem same_ite {c : Prop} {_ : Decidable c} {m n m' n' : Machine} (h : Same m n)
    (h' : Same m' n') : Same (if c then m else m') (if c then n else n') := by
  split
  · exact h
  · exact h'

section

variable (m : Machine) (e : Aside)

theorem same_put : Same m (m.put e) :=
  Eq.refl _

theorem same_leave : Same m.leave (m.put e).leave := by
  cases h : m.cpu.services with
  | nil =>
    have h' : (m.put e).cpu.services = [] := h
    rw [leave_nil h, leave_nil h']
    exact Eq.refl _
  | cons r rest =>
    have h' : (m.put e).cpu.services = r :: rest := h
    rw [leave_cons h, leave_cons h']
    exact Eq.refl _

theorem same_perform (raw : UInt8) (i : Instruction) :
    Same (m.perform raw i) ((m.put e).perform raw i) := by
  -- Both sides compute the same but for a choice between machines, which `put` does not pass by
  -- itself.
  cases i with
  | ld o | st o | mov o | xch o | add o | addc o | sub o | subc o | inc o | dec o | and o | or o
  | xor o => cases o <;> exact Eq.refl _
  | be o | bne o | dbnz o => cases o <;> exact same_ite (same_put _ e) (same_put _ e)
  | bz | bnz | bp | bn | bpc => exact same_ite (same_put _ e) (same_put _ e)
  | div =>
    exact Same.setFlag (same_ite (same_put _ e) (same_put _ e)) .carry false
  | reti => exact same_leave m e
  | _ => exact Eq.refl _

theorem same_poll : Same m.poll.1 (m.put e).poll.1 ∧ m.poll.2 = (m.put e).poll.2 := by
  cases h : m.accept.next? with
  | none =>
    have h' : (m.put e).accept.next? = none := h
    rw [poll_of_none h, poll_of_none h']
    exact ⟨Eq.refl _, rfl⟩
  | some s =>
    have h' : (m.put e).accept.next? = some s := h
    rw [poll_of_some h, poll_of_some h']
    refine ⟨?_, rfl⟩
    by_cases hr : s = .reset
    · rw [hr, serve_reset, serve_reset]
      exact Eq.refl _
    · rw [serve_of_ne hr, serve_of_ne hr]
      exact Eq.refl _

theorem same_writeProgram (address : UInt16) (value : UInt8) :
    Same (m.writeProgram address value) ((m.put e).writeProgram address value) := by
  have hbank : (m.put e).bank = m.bank := rfl
  unfold writeProgram
  rw [hbank]
  cases m.bank <;> exact Eq.refl _

end

namespace Same

variable {m n : Machine} (h : Same m n)

include h

theorem ram_eq : m.ram = n.ram := by
  obtain ⟨e, rfl⟩ := h.eq_put
  rfl

theorem flash_eq : m.flash = n.flash := by
  obtain ⟨e, rfl⟩ := h.eq_put
  rfl

theorem pc_eq : m.cpu.pc = n.cpu.pc := by
  obtain ⟨e, rfl⟩ := h.eq_put
  rfl

theorem interrupts_eq : m.interrupts = n.interrupts := by
  obtain ⟨e, rfl⟩ := h.eq_put
  rfl

theorem programOf_eq : n.programOf = m.programOf := by
  obtain ⟨e, rfl⟩ := h.eq_put
  funext bank
  cases bank <;> rfl

theorem start : Same m.start n.start := by
  obtain ⟨e, rfl⟩ := h.eq_put
  exact Eq.refl _

theorem retire : Same m.retire n.retire := by
  obtain ⟨e, rfl⟩ := h.eq_put
  exact Eq.refl _

theorem fetchOpcode (noted noted' : Bool) :
    Same (m.fetchOpcode noted) (n.fetchOpcode noted') := by
  obtain ⟨e, rfl⟩ := h.eq_put
  rw [fetchOpcode_eq m, fetchOpcode_eq (m.put e)]
  exact Eq.refl _

theorem perform (raw : UInt8) (i : Instruction) : Same (m.perform raw i) (n.perform raw i) := by
  obtain ⟨e, rfl⟩ := h.eq_put
  exact same_perform m e raw i

theorem processInstruction (noted noted' : Bool) :
    Same (m.processInstruction noted).1 (n.processInstruction noted').1 ∧
      (m.processInstruction noted).2 = (n.processInstruction noted').2 := by
  have hhalted : n.isHalted = m.isHalted := by rw [isHalted, isHalted, register, register, h.ram_eq]
  cases hm : m.isHalted with
  | true =>
    rw [processInstruction_of_halted noted hm,
      processInstruction_of_halted noted' (hhalted.trans hm)]
    exact ⟨h.start, rfl⟩
  | false =>
    have hraw : n.programOf n.cpu.program.latest n.cpu.pc =
        m.programOf m.cpu.program.latest m.cpu.pc := by
      rw [h.programOf_eq]
      obtain ⟨e, rfl⟩ := h.eq_put
      rfl
    rw [processInstruction_eq noted hm, processInstruction_eq noted' (hhalted.trans hm), hraw]
    exact ⟨((h.start.fetchOpcode noted noted').perform _ _).retire, rfl⟩

end Same

/-! ## Twins -/

/-- `n` cannot be told from `m` from now on, save for the buzzer, which it turns on and off alike;
if it is `tuned`, the buzzer has the same period too. -/
structure Twin (tuned : Prop) (m n : Machine) : Prop where
  same : Same m n
  timer0 : m.timer0.Twin n.timer0
  timer1 : m.timer1.Twin n.timer1
  period : tuned → m.buzzer.period = n.buzzer.period

/-- `n` is `m` with the same timers and the same buzzer. -/
structure Quiet (m n : Machine) : Prop where
  timer0 : n.timer0 = m.timer0
  timer1 : n.timer1 = m.timer1
  buzzer : n.buzzer = m.buzzer

theorem Outside.quiet {m n : Machine} (h : Outside m n) : Quiet m n :=
  ⟨h.timer0, h.timer1, h.buzzer⟩

theorem quiet_writeProgram (m : Machine) (address : UInt16) (value : UInt8) :
    Quiet m (m.writeProgram address value) := by
  rw [writeProgram_eq]
  exact ⟨rfl, rfl, rfl⟩

theorem quiet_poll (m : Machine) : Quiet m m.poll.1 := by
  rcases poll_fst m with hp | hp | ⟨s, hp⟩
  · rw [hp]
    exact ⟨rfl, rfl, rfl⟩
  · rw [hp]
    exact ⟨rfl, rfl, rfl⟩
  · rw [hp]
    exact ⟨rfl, rfl, rfl⟩

namespace Twin

variable {tuned : Prop} {m n : Machine} (h : Twin tuned m n)

include h

theorem takeTimer0 {o o' : Timer.Outcome} (ho : o.Twin o') :
    Twin tuned (m.takeTimer0 o) (n.takeTimer0 o') where
  same := by
    obtain ⟨e, rfl⟩ := h.same.eq_put
    rw [takeTimer0_eq m o, takeTimer0_eq (m.put e) o', ho.ram, ho.interrupts]
    exact Eq.refl _
  timer0 := by
    rw [takeTimer0_timer0, takeTimer0_timer0]
    exact ho.timer
  timer1 := by
    rw [takeTimer0_timer1, takeTimer0_timer1]
    exact h.timer1
  period := by
    intro ht
    rw [takeTimer0_buzzer, takeTimer0_buzzer, ho.signals]
    exact Buzzer.foldl_hear_period _ (h.period ht)

theorem takeTimer1 {o o' : Timer.Outcome} (ho : o.Twin o') :
    Twin tuned (m.takeTimer1 o) (n.takeTimer1 o') where
  same := by
    obtain ⟨e, rfl⟩ := h.same.eq_put
    rw [takeTimer1_eq m o, takeTimer1_eq (m.put e) o', ho.ram, ho.interrupts]
    exact Eq.refl _
  timer0 := by
    rw [takeTimer1_timer0, takeTimer1_timer0]
    exact h.timer0
  timer1 := by
    rw [takeTimer1_timer1, takeTimer1_timer1]
    exact ho.timer
  period := by
    intro ht
    rw [takeTimer1_buzzer, takeTimer1_buzzer, ho.signals]
    exact Buzzer.foldl_hear_period _ (h.period ht)

theorem outcome0 : (m.timer0.step m.ram m.interrupts).Twin (n.timer0.step n.ram n.interrupts) := by
  rw [← h.same.ram_eq, ← h.same.interrupts_eq]
  exact h.timer0.step ..

theorem outcome1 : (m.timer1.step m.ram m.interrupts).Twin (n.timer1.step n.ram n.interrupts) := by
  rw [← h.same.ram_eq, ← h.same.interrupts_eq]
  exact h.timer1.step ..

theorem stepTimer0 : Twin tuned m.stepTimer0 n.stepTimer0 :=
  h.takeTimer0 h.outcome0

theorem stepTimer1 : Twin tuned m.stepTimer1 n.stepTimer1 :=
  h.takeTimer1 h.outcome1

theorem tickTimer0 : Twin tuned m.tickTimer0 n.tickTimer0 := by
  unfold Machine.tickTimer0
  rw [← h.same.ram_eq, ← h.same.interrupts_eq]
  exact h.takeTimer0 (h.timer0.tick ..)

theorem tickTimer1 : Twin tuned m.tickTimer1 n.tickTimer1 := by
  unfold Machine.tickTimer1
  rw [← h.same.ram_eq, ← h.same.interrupts_eq]
  exact h.takeTimer1 (h.timer1.tick ..)

omit h in
theorem elapse {m n : Machine} (h : Twin tuned m n) (cycles : Nat) :
    Twin tuned (m.elapse cycles) (n.elapse cycles) := by
  induction cycles generalizing m n with
  | zero => exact h
  | succ cycles ih => exact ih h.stepTimer0.stepTimer1

/-- What leaves timers and buzzer alone keeps twins, if it leaves the rest the same. -/
theorem quiet {m' n' : Machine} (hs : Same m' n') (hm : Quiet m m') (hn : Quiet n n') :
    Twin tuned m' n' where
  same := hs
  timer0 := by
    rw [hm.timer0, hn.timer0]
    exact h.timer0
  timer1 := by
    rw [hm.timer1, hn.timer1]
    exact h.timer1
  period := by
    rw [hm.buzzer, hn.buzzer]
    exact h.period

theorem processInstruction (noted noted' : Bool) :
    Twin tuned (m.processInstruction noted).1 (n.processInstruction noted').1 :=
  h.quiet (h.same.processInstruction noted noted').1 (runs_processInstruction ..).outside.quiet
    (runs_processInstruction ..).outside.quiet

theorem poll : Twin tuned m.poll.1 n.poll.1 := by
  have hs : Same m.poll.1 n.poll.1 := by
    obtain ⟨e, rfl⟩ := h.same.eq_put
    exact (same_poll m e).1
  exact h.quiet hs (quiet_poll m) (quiet_poll n)

theorem progress_eq : (m.processInstruction m.debug).2 = (n.processInstruction n.debug).2 :=
  (h.same.processInstruction ..).2

theorem advance : Twin tuned m.advance.1 n.advance.1 := by
  unfold Machine.advance
  dsimp only
  rw [h.progress_eq]
  exact (h.processInstruction ..).elapse _

theorem step : Twin tuned m.step.1 n.step.1 :=
  h.advance.poll

theorem step_cycles : m.step.2 = n.step.2 :=
  congrArg Progress.cycles h.progress_eq

theorem stepServed_eq : m.stepServed = n.stepServed := by
  obtain ⟨e, he⟩ := h.advance.same.eq_put
  rw [stepServed, stepServed, he]
  exact (same_poll ..).2

theorem runFor (cycles : Nat) : Twin tuned (m.runFor cycles).1 (n.runFor cycles).1 :=
  (runOn_related (R := fun _ => Twin tuned) (fun _ _ _ _ h => ⟨h.step_cycles, h.step⟩) h 0).1

/-! ## On and off -/

theorem enabled_cycle (hw : m.timer1.WiredAs .one) :
    m.stepTimer0.stepTimer1.buzzer.enabled = n.stepTimer0.stepTimer1.buzzer.enabled := by
  have h0 := h.stepTimer0
  have hw0 : m.stepTimer0.timer1.WiredAs .one := by
    rw [Machine.stepTimer0, takeTimer0_timer1]
    exact hw
  unfold Machine.stepTimer1
  rw [takeTimer1_buzzer, takeTimer1_buzzer, ← h0.outcome1.signals]
  exact Buzzer.foldl_hear_enabled _ (.inr (Timer.sound_mem_signals hw0 ..))

omit h in
theorem enabled_elapse {m n : Machine} (h : Twin tuned m n) (hw : m.timer1.WiredAs .one)
    (cycles : Nat) :
    (m.elapse (cycles + 1)).buzzer.enabled = (n.elapse (cycles + 1)).buzzer.enabled := by
  induction cycles generalizing m n with
  | zero => exact h.enabled_cycle hw
  | succ cycles ih =>
    refine ih h.stepTimer0.stepTimer1 ?_
    rw [Machine.stepTimer1, takeTimer1_timer1]
    refine Timer.WiredAs.step ?_ _ _
    rw [Machine.stepTimer0, takeTimer0_timer1]
    exact hw

/-- A step of twins leaves the buzzer on or off alike, for it takes time. -/
theorem enabled_step (hw : m.timer1.WiredAs .one) :
    m.step.1.buzzer.enabled = n.step.1.buzzer.enabled := by
  have hw' : (m.processInstruction m.debug).1.timer1.WiredAs .one := by
    rw [(runs_processInstruction ..).outside.timer1]
    exact hw
  have hpos : 0 < (m.processInstruction m.debug).2.cycles := m.step_cycles_pos
  obtain ⟨cycles, hcycles⟩ := Nat.exists_eq_add_one.mpr hpos
  have hadvance : m.advance.1.buzzer.enabled = n.advance.1.buzzer.enabled := by
    unfold Machine.advance
    dsimp only
    rw [← h.progress_eq, hcycles]
    exact (h.processInstruction ..).enabled_elapse hw' cycles
  show m.advance.1.poll.1.buzzer.enabled = n.advance.1.poll.1.buzzer.enabled
  rw [(quiet_poll _).buzzer, (quiet_poll _).buzzer, hadvance]

/-! ## Acts -/

theorem act (a : Act) : Twin tuned (a.run m) (a.run n) := by
  have hsame := h.same
  cases a with
  | step => exact h.step
  | runFor cycles => exact h.runFor cycles.toNat
  | instruction noted => exact h.processInstruction noted noted
  | execute raw =>
    exact h.quiet (hsame.perform raw _) (runs_execute m raw).outside.quiet
      (runs_execute n raw).outside.quiet
  | poll => exact h.poll
  | stepTimer0 => exact h.stepTimer0
  | stepTimer1 => exact h.stepTimer1
  | tickTimer0 => exact h.tickTimer0
  | tickTimer1 => exact h.tickTimer1
  | writeProgram address value =>
    obtain ⟨e, rfl⟩ := hsame.eq_put
    exact h.quiet (same_writeProgram m e address value) (quiet_writeProgram ..)
      (quiet_writeProgram ..)
  | _ =>
    obtain ⟨e, rfl⟩ := hsame.eq_put
    exact h.quiet (Eq.refl _) ⟨rfl, rfl, rfl⟩ ⟨rfl, rfl, rfl⟩

omit h in
theorem runActs {m n : Machine} (h : Twin tuned m n) (acts : List Act) :
    Twin tuned (m.runActs acts) (n.runActs acts) := by
  induction acts generalizing m n with
  | nil => exact h
  | cons a acts ih => exact ih (h.act a)

end Twin

end Machine
end VisualMemory
