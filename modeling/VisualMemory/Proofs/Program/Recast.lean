import VisualMemory.Proofs.Act
import VisualMemory.Proofs.Program.Reading

/-!
# What no instruction looks at

An instruction reads its program through the bank in use, and looks neither at the pending word nor
at the queue. The timers add their requests to the pending word without looking at it. So ROM,
requests and queue can be exchanged before a step or behind it, as long as the ROM reads the same.

* `Rom.ReadsAs`: the ROMs read the same. `Machine.recast`: the machine with the three exchanged.
* `Reading.perform_recast`, `processInstruction_recast`: an instruction.
* `elapse_recast`, `advance_recast`: the passing of time, and a step up to its poll.
* `interrupts_advance`, `queue_advance`: what a poll finds.
* `Act.run_recast`: the acts of a front end that look at none of the three.
-/

namespace VisualMemory

open Interrupt (Source Controller)

/-- The two ROMs read the same wherever a program can look. -/
def Rom.ReadsAs (r r' : Rom) : Prop :=
  ∀ address : UInt16, r.read address.toNat = r'.read address.toNat

namespace Machine

/-- The machine with another ROM, other requests and another queue. -/
def recast (m : Machine) (rom : Rom) (requests : Controller) (queue : List Source) : Machine :=
  { m with rom, interrupts := requests, cpu := { m.cpu with queue } }

variable (m : Machine) (r : Rom) (c : Controller) (q : List Source)

/-! ## Instructions -/

theorem ite_recast {p : Prop} {_ : Decidable p} {m n m' n' : Machine}
    (h : n = m.recast r c q) (h' : n' = m'.recast r c q) :
    (if p then n else n') = (if p then m else m').recast r c q := by
  split
  · exact h
  · exact h'

theorem setFlag_recast {m n : Machine} (h : n = m.recast r c q) (f : Flag) (on : Bool) :
    n.setFlag f on = (m.setFlag f on).recast r c q := by
  rw [h]
  rfl

theorem leave_recast : (m.recast r c q).leave = m.leave.recast r c q := by
  cases h : m.cpu.services with
  | nil =>
    have h' : (m.recast r c q).cpu.services = [] := h
    rw [leave_nil h, leave_nil h']
    rfl
  | cons s rest =>
    have h' : (m.recast r c q).cpu.services = s :: rest := h
    rw [leave_cons h, leave_cons h']
    rfl

theorem divide_recast : (m.recast r c q).divide = m.divide.recast r c q := by
  unfold divide
  dsimp only
  apply setFlag_recast
  apply ite_recast
  · rfl
  · rfl

end Machine

open Machine

theorem Reading.perform_recast (program : UInt16 → UInt8) (m : Machine) (r : Rom) (c : Controller)
    (q : List Source) (raw : UInt8) (i : Instruction) :
    (perform program (m.recast r c q) raw i).value =
      (perform program m raw i).value.recast r c q := by
  -- Both sides compute the same, but an exchange does not pass a choice between machines by itself.
  cases i with
  | ld o | st o | mov o | xch o | add o | addc o | sub o | subc o | inc o | dec o | and o | or o
  | xor o => cases o <;> rfl
  | be o | bne o | dbnz o => cases o <;> exact ite_recast r c q rfl rfl
  | bz | bnz | bp | bn => exact ite_recast r c q rfl rfl
  | bpc =>
    show (ite _ _ _ : Reading Machine).value = (ite _ _ _ : Reading Machine).value.recast r c q
    rw [apply_ite Reading.value, apply_ite Reading.value]
    exact ite_recast r c q rfl rfl
  | div =>
    rw [perform_div, perform_div]
    exact divide_recast m r c q
  | reti =>
    rw [perform_reti, perform_reti]
    exact leave_recast ..
  | _ => rfl

namespace Machine

variable {m : Machine} {r : Rom} (h : r.ReadsAs m.rom) (c : Controller) (q : List Source)

include h

theorem readProgram_recast : (m.recast r c q).readProgram = m.readProgram := by
  have hbank : (m.recast r c q).bank = m.bank := rfl
  funext address
  unfold readProgram
  rw [hbank]
  cases m.bank with
  | rom => exact h address
  | flash => rfl

theorem execute_recast (raw : UInt8) :
    (m.recast r c q).execute raw = (m.execute raw).recast r c q := by
  unfold execute
  rw [← Reading.value_perform, ← Reading.value_perform, readProgram_recast h,
    Reading.perform_recast]

theorem fetch_recast : (m.recast r c q).fetch = (m.fetch.1.recast r c q, m.fetch.2) :=
  congrArg (Prod.mk _) (congrFun (readProgram_recast h c q) m.cpu.pc)

omit h in
theorem commitBank_recast (m : Machine) (r : Rom) :
    (m.recast r c q).commitBank = m.commitBank.recast r c q :=
  ite_recast r c q rfl rfl

theorem processInstruction_recast (noted : Bool) :
    (m.recast r c q).processInstruction noted =
      ((m.processInstruction noted).1.recast r c q, (m.processInstruction noted).2) := by
  have hhalted : (m.recast r c q).isHalted = m.isHalted := rfl
  cases hm : m.isHalted with
  | true =>
    rw [processInstruction_of_halted noted hm, processInstruction_of_halted noted (hhalted.trans hm)]
    rfl
  | false =>
    have hcommit : (m.recast r c q).start.commitBank = m.start.commitBank.recast r c q :=
      commitBank_recast c q m.start r
    have hrom : r.ReadsAs m.start.commitBank.rom := by
      rw [(stays_commitBank m.start).rom]
      exact h
    have hfetch := fetch_recast hrom c q
    have hopcode : (m.recast r c q).start.fetchOpcode noted =
        (m.start.fetchOpcode noted).recast r c q := by
      unfold fetchOpcode
      rw [hcommit, hfetch]
      exact ite_recast r c q rfl rfl
    have hrom' : r.ReadsAs (m.start.fetchOpcode noted).rom := by
      rw [(stays_fetchOpcode m.start noted).rom]
      exact h
    rw [processInstruction_of_not_halted noted hm,
      processInstruction_of_not_halted noted (hhalted.trans hm), hcommit, hfetch, hopcode,
      execute_recast hrom']
    rfl

end Machine

/-! ## The passing of time -/

namespace Timer

variable (t : Timer) (ram : Ram) (c c' : Controller)

theorem tick_requests : t.tick ram c' =
    { t.tick ram c with interrupts := (t.tickRaised ram).foldl (·.raise ·) c' } :=
  rfl

theorem step_requests : t.step ram c' =
    { t.step ram c with interrupts := (t.stepRaised ram).foldl (·.raise ·) c' } := by
  unfold step stepRaised
  cases t.prescaler with
  | none => exact tick_requests ..
  | some p =>
    dsimp only
    split
    · rfl
    · rfl

end Timer

namespace Machine

variable (m : Machine) (r : Rom) (c : Controller) (q : List Source)

theorem hear_recast (layout : Timer.Layout) (s : Timer.Signal) :
    (m.recast r c q).hear layout s = (m.hear layout s).recast r c q := by
  cases s with
  | period value =>
    have hnote : (if value = m.buzzer.period then m.recast r c q
        else (m.recast r c q).note (.periodChanged value)) =
        (if value = m.buzzer.period then m else m.note (.periodChanged value)).recast r c q :=
      ite_recast r c q rfl rfl
    exact congrArg (fun n : Machine => { n with buzzer := { n.buzzer with period := value } }) hnote
  | _ => rfl

theorem foldl_hear_recast (layout : Timer.Layout) (signals : List Timer.Signal) :
    signals.foldl (·.hear layout) (m.recast r c q) =
      (signals.foldl (·.hear layout) m).recast r c q := by
  induction signals generalizing m with
  | nil => rfl
  | cons s signals ih => rw [List.foldl_cons, List.foldl_cons, hear_recast, ih]

theorem takeTimer0_recast (c' : Controller) (o : Timer.Outcome) :
    (m.recast r c q).takeTimer0 { o with interrupts := c' } = (m.takeTimer0 o).recast r c' q :=
  foldl_hear_recast { m with timer0 := o.timer, ram := o.ram, interrupts := o.interrupts } r c' q ..

theorem takeTimer1_recast (c' : Controller) (o : Timer.Outcome) :
    (m.recast r c q).takeTimer1 { o with interrupts := c' } = (m.takeTimer1 o).recast r c' q :=
  foldl_hear_recast { m with timer1 := o.timer, ram := o.ram, interrupts := o.interrupts } r c' q ..

theorem stepTimer0_recast : (m.recast r c q).stepTimer0 =
    m.stepTimer0.recast r ((m.timer0.stepRaised m.ram).foldl (·.raise ·) c) q := by
  rw [stepTimer0, stepTimer0, ← takeTimer0_recast m r c q, ← Timer.step_requests]
  rfl

theorem stepTimer1_recast : (m.recast r c q).stepTimer1 =
    m.stepTimer1.recast r ((m.timer1.stepRaised m.ram).foldl (·.raise ·) c) q := by
  rw [stepTimer1, stepTimer1, ← takeTimer1_recast m r c q, ← Timer.step_requests]
  rfl

theorem tickTimer0_recast : (m.recast r c q).tickTimer0 =
    m.tickTimer0.recast r ((m.timer0.tickRaised m.ram).foldl (·.raise ·) c) q := by
  rw [tickTimer0, tickTimer0, ← takeTimer0_recast m r c q]
  rfl

theorem tickTimer1_recast : (m.recast r c q).tickTimer1 =
    m.tickTimer1.recast r ((m.timer1.tickRaised m.ram).foldl (·.raise ·) c) q := by
  rw [tickTimer1, tickTimer1, ← takeTimer1_recast m r c q]
  rfl

theorem elapse_recast (cycles : Nat) : (m.recast r c q).elapse cycles =
    (m.elapse cycles).recast r ((m.elapseRaised cycles).foldl (·.raise ·) c) q := by
  induction cycles generalizing m c with
  | zero => rfl
  | succ cycles ih =>
    rw [elapse, elapse, stepTimer0_recast, stepTimer1_recast, ih, elapseRaised, cycleRaised,
      List.foldl_append, List.foldl_append]

/-! ## A step up to its poll -/

theorem advance_recast {m : Machine} {r : Rom} (h : r.ReadsAs m.rom) (c : Controller)
    (q : List Source) : (m.recast r c q).advance =
      (m.advance.1.recast r (m.stepRaised.foldl (·.raise ·) c) q, m.advance.2) := by
  have hdebug : (m.recast r c q).debug = m.debug := rfl
  rw [advance, advance, hdebug, processInstruction_recast h]
  dsimp only
  rw [elapse_recast]
  rfl

theorem advance_self : m.advance.1 =
    m.advance.1.recast m.rom (m.stepRaised.foldl (·.raise ·) m.interrupts) m.cpu.queue :=
  congrArg Prod.fst (advance_recast (m := m) (fun _ => rfl) m.interrupts m.cpu.queue)

theorem interrupts_advance : m.advance.1.interrupts = m.stepRaised.foldl (·.raise ·) m.interrupts :=
  congrArg Machine.interrupts m.advance_self

theorem queue_advance : m.advance.1.cpu.queue = m.cpu.queue :=
  congrArg (·.cpu.queue) m.advance_self

/-- A program's write to ROM is only noted. -/
theorem writeProgram_recast (address : UInt16) (value : UInt8) :
    (m.recast r c q).writeProgram address value = (m.writeProgram address value).recast r c q := by
  have hbank : (m.recast r c q).bank = m.bank := rfl
  unfold writeProgram
  rw [hbank]
  cases m.bank with
  | rom => rfl
  | flash => rfl

end Machine

/-! ## Acts -/

/-- Acts that neither poll nor take requests back nor load bytes into the ROM. -/
def Act.isBlind : Act → Bool
  | step | runFor _ | poll | reset | directBoot _ | loadRom _ _ | lower _ | lowerAll
  | restore _ => false
  | _ => true

theorem Act.run_recast {m : Machine} {r : Rom} (h : r.ReadsAs m.rom) (c : Controller)
    (q : List Source) {a : Act} (ha : a.isBlind = true) :
    a.run (m.recast r c q) = (a.run m).recast r ((a.raised m).foldl (·.raise ·) c) q := by
  cases a with
  | instruction noted => exact congrArg Prod.fst (processInstruction_recast h c q noted)
  | execute raw => exact execute_recast h c q raw
  | stepTimer0 => exact stepTimer0_recast m r c q
  | stepTimer1 => exact stepTimer1_recast m r c q
  | tickTimer0 => exact tickTimer0_recast m r c q
  | tickTimer1 => exact tickTimer1_recast m r c q
  | writeProgram address value => exact writeProgram_recast m r c q address value
  | step | runFor | poll | reset | directBoot | loadRom | lower | lowerAll | restore => cases ha
  | _ => rfl

end VisualMemory
