import VisualMemory.Proofs.Interrupt.Masking
import VisualMemory.Proofs.Timer.Order
import VisualMemory.Proofs.Timer.Report

/-!
# Sleep

A halted processor executes nothing while the timers run on. Polls that serve nothing may accept what
the timers ask for, each at another time and in another order; but the timers look at neither the
controller nor the queue, so all acceptance can be put off to the end of the sleep.

* `Machine.Queues`: some requests have moved from the controller to the queue. `Queues.accept`,
  `Queues.elapse`: acceptance does this, and it stays so while time passes.
* `step_of_halted`: a step of a halted processor is one cycle and a poll.
* `Machine.SleepsFor`, `queues_runSteps`: a sleep that no poll ends.
* `Machine.IsDeaf`, `poll_of_closed`: where nothing is let in and no reset waits, a poll does nothing.
* `sleep_is_time`: what becomes of a machine in its sleep.
-/

namespace VisualMemory

open Interrupt (Source Controller)

namespace Machine

/-! ## Requests on their way -/

/-- `n` is `m` but that some requests have moved from the controller to the end of the queue. -/
structure Queues (m n : Machine) : Prop where
  rest : n = m.recast m.rom n.interrupts n.cpu.queue
  awaits : ∀ s, n.Awaits s ↔ m.Awaits s
  /-- Nothing is pending that was not. -/
  pending : ∀ s, n.interrupts.isPending s = true → m.interrupts.isPending s = true
  /-- What was queued has kept its place. -/
  queued : m.cpu.queue <+: n.cpu.queue
  /-- Bits without a source stay. -/
  foreign : ∀ i, (∀ s : Source, s.index.toNat ≠ i) → n.interrupts.bit i = m.interrupts.bit i

namespace Queues

variable {m n k : Machine}

theorem refl (m : Machine) : m.Queues m :=
  ⟨rfl, fun _ => Iff.rfl, fun _ h => h, List.prefix_rfl, fun _ _ => rfl⟩

theorem trans (h : m.Queues n) (h' : n.Queues k) : m.Queues k where
  rest := by rw [h'.rest, h.rest]; rfl
  awaits s := (h'.awaits s).trans (h.awaits s)
  pending s hs := h.pending s (h'.pending s hs)
  queued := h.queued.trans h'.queued
  foreign i hi := (h'.foreign i hi).trans (h.foreign i hi)

theorem accept (m : Machine) : m.Queues m.accept where
  rest := rfl
  awaits _ := awaits_accept
  pending _ h := (isPending_accept.mp h).1
  queued := List.prefix_append _ _
  foreign _ hi := Controller.bit_foldl_lower_of_ne _ fun s _ => hi s

theorem elapse (h : m.Queues n) (cycles : Nat) : (m.elapse cycles).Queues (n.elapse cycles) := by
  let l := m.elapseRaised cycles
  have hm : m.elapse cycles =
      (m.elapse cycles).recast m.rom (l.foldl (·.raise ·) m.interrupts) m.cpu.queue :=
    elapse_recast m m.rom m.interrupts m.cpu.queue cycles
  have hn : n.elapse cycles =
      (m.elapse cycles).recast m.rom (l.foldl (·.raise ·) n.interrupts) n.cpu.queue := by
    rw [← elapse_recast, ← h.rest]
  constructor
  · rw [hn, hm]
    rfl
  · intro s
    have hs := h.awaits s
    rw [hn, hm, Awaits, Awaits]
    show (l.foldl (·.raise ·) n.interrupts).isPending s = true ∨ s ∈ n.cpu.queue ↔
      (l.foldl (·.raise ·) m.interrupts).isPending s = true ∨ s ∈ m.cpu.queue
    rw [Controller.isPending_foldl_raise, Controller.isPending_foldl_raise, or_right_comm, ← Awaits,
      hs, Awaits, or_right_comm]
  · intro s
    rw [hn, hm]
    show (l.foldl (·.raise ·) n.interrupts).isPending s = true →
      (l.foldl (·.raise ·) m.interrupts).isPending s = true
    rw [Controller.isPending_foldl_raise, Controller.isPending_foldl_raise]
    exact Or.imp_left (h.pending s)
  · rw [hn, hm]
    exact h.queued
  · intro i hi
    have hbit (c : Controller) : (l.foldl (·.raise ·) c).bit i = c.bit i := by
      rw [Bool.eq_iff_iff, Controller.bit_foldl_raise]
      refine or_iff_left ?_
      rintro ⟨s, -, hs⟩
      exact hi s hs
    rw [hn, hm]
    exact (hbit _).trans ((h.foreign i hi).trans (hbit _).symm)

theorem start (h : m.Queues n) : m.start.Queues n.start where
  rest := by rw [h.rest]; rfl
  awaits := h.awaits
  pending := h.pending
  queued := h.queued
  foreign := h.foreign

end Queues

/-! ## The passing of time in a sleep -/

section

variable (m : Machine) (cpu : Cpu)

theorem hear_setCpu (layout : Timer.Layout) (s : Timer.Signal) :
    ({ m with cpu } : Machine).hear layout s = { m.hear layout s with cpu } := by
  cases s with
  | period value =>
    simp only [hear]
    split
    · rfl
    · rfl
  | _ => rfl

theorem foldl_hear_setCpu (layout : Timer.Layout) (signals : List Timer.Signal) :
    signals.foldl (·.hear layout) ({ m with cpu } : Machine) =
      { signals.foldl (·.hear layout) m with cpu } := by
  induction signals generalizing m with
  | nil => rfl
  | cons s signals ih => rw [List.foldl_cons, List.foldl_cons, hear_setCpu, ih]

theorem stepTimer0_setCpu :
    ({ m with cpu } : Machine).stepTimer0 = { m.stepTimer0 with cpu } :=
  foldl_hear_setCpu { m with timer0 := _, ram := _, interrupts := _ } cpu _ _

theorem stepTimer1_setCpu :
    ({ m with cpu } : Machine).stepTimer1 = { m.stepTimer1 with cpu } :=
  foldl_hear_setCpu { m with timer1 := _, ram := _, interrupts := _ } cpu _ _

theorem elapse_setCpu (cycles : Nat) :
    ({ m with cpu } : Machine).elapse cycles = { m.elapse cycles with cpu } := by
  induction cycles generalizing m with
  | zero => rfl
  | succ cycles ih => rw [elapse, elapse, stepTimer0_setCpu, stepTimer1_setCpu, ih]

theorem elapse_start (cycles : Nat) : m.start.elapse cycles = (m.elapse cycles).start := by
  rw [start, elapse_setCpu, start, (passes_elapse m cycles).cpu]

theorem elapse_succ (cycles : Nat) : m.elapse (cycles + 1) = (m.elapse cycles).elapse 1 := by
  rw [elapse_eq_iterate, Function.iterate_succ_apply', ← elapse_eq_iterate]
  rfl

end

theorem isHalted_elapse {m : Machine} (hc : m.Clocked) (h : m.isHalted = true) (cycles : Nat) :
    (m.elapse cycles).isHalted = true := by
  have hpcon {n : Machine} (hn : n.Clocked) :
      n.register Register.pcon = n.ram.cell (.register 0x07) :=
    hn.latches.read_eq_cell (show ¬ Ram.IsCounter 0x07 by decide)
  have hlater : (m.elapse cycles).Clocked := Clocked.invariant.elapse hc cycles
  rw [isHalted, hpcon hc] at h
  rw [isHalted, hpcon hlater]
  exact (retains_elapse hc.timer0.layout_eq hc.timer1.layout_eq cycles).bits _ 0 (by decide) h

theorem step_of_halted {m : Machine} (h : m.isHalted = true) :
    m.step = ((m.start.elapse 1).poll.1, 1) := by
  rw [step, advance, processInstruction_of_halted _ h]
  rfl

theorem stepServed_of_halted {m : Machine} (h : m.isHalted = true) :
    m.stepServed = (m.start.elapse 1).poll.2 := by
  rw [stepServed, advance, processInstruction_of_halted _ h]
  rfl

/-! ## A sleep that no poll ends -/

/-- What a sleep since `m` keeps, after so many steps. -/
structure SleepsFor (m : Machine) (steps : Nat) (n : Machine) : Prop where
  halted : n.isHalted = true
  queues : (m.elapse steps).start.Queues n.start

namespace SleepsFor

variable {m n : Machine} {steps : Nat}

theorem zero (h : m.isHalted = true) : m.SleepsFor 0 m :=
  ⟨h, .refl _⟩

/-- The next step is a cycle, and acceptance. -/
theorem queues_step (h : m.SleepsFor steps n) (hs : n.stepServed = none) :
    (m.elapse (steps + 1)).start.Queues n.step.1 := by
  have hcycle : (m.elapse (steps + 1)).start.Queues (n.start.elapse 1) := by
    rw [elapse_succ, ← elapse_start]
    exact h.queues.elapse 1
  have hpoll : n.step.1 = (n.start.elapse 1).accept := by
    rw [stepServed_of_halted h.halted] at hs
    rw [step_of_halted h.halted]
    rcases poll_cases (n.start.elapse 1) with ⟨-, hp⟩ | ⟨s, -, hp⟩
    · rw [hp]
    · rw [hp] at hs
      cases hs
  rw [hpoll]
  exact hcycle.trans (.accept _)

theorem succ (hc : m.Clocked) (hm : m.isHalted = true) (h : m.SleepsFor steps n)
    (hs : n.stepServed = none) : m.SleepsFor (steps + 1) n.step.1 := by
  have hqueues := h.queues_step hs
  refine ⟨?_, hqueues.start⟩
  -- the halt bit lies in memory, which acceptance leaves alone
  rw [hqueues.rest]
  exact isHalted_elapse hc hm (steps + 1)

end SleepsFor

variable {m : Machine} (hc : m.Clocked) (hm : m.isHalted = true)

include hc hm

theorem sleepsFor_runSteps {n : Nat} (hs : ∀ i < n, (m.runSteps 0 i).1.stepServed = none) :
    m.SleepsFor n (m.runSteps 0 n).1 := by
  induction n with
  | zero => exact .zero hm
  | succ n ih =>
    rw [runSteps_succ]
    have hsleep := ih fun i hi => hs i (Nat.lt_succ_of_lt hi)
    exact hsleep.succ hc hm (hs n (Nat.lt_succ_self n))

/-- Once a step has accepted the last requests, it has also started the processor. -/
theorem queues_runSteps {n : Nat} (hpos : 0 < n)
    (hs : ∀ i < n, (m.runSteps 0 i).1.stepServed = none) :
    (m.elapse n).start.Queues (m.runSteps 0 n).1 := by
  obtain ⟨k, rfl⟩ := Nat.exists_eq_succ_of_ne_zero hpos.ne'
  have hsleep := sleepsFor_runSteps hc hm fun i hi => hs i (Nat.lt_succ_of_lt hi)
  rw [runSteps_succ]
  exact hsleep.queues_step (hs k (Nat.lt_succ_self k))

end Machine

/-! ## A masked sleep -/

theorem Timer.Reports.isPending_reset {t : Timer} (hl : t.layout = .timer0 ∨ t.layout = .timer1)
    {ram ram' : Ram} {c c' : Controller} (h : t.Reports ram ram' c c') :
    c'.isPending .reset = c.isPending .reset := by
  have hlow : .reset ≠ t.layout.lowSource := by
    rcases hl with hl | hl <;> rw [hl] <;> decide
  have hhigh : .reset ≠ t.layout.highSource := by
    rcases hl with hl | hl <;> rw [hl] <;> decide
  rw [Controller.isPending_eq_getLsbD, Controller.isPending_eq_getLsbD, Bool.eq_iff_iff]
  refine ⟨fun hset => ?_, h.kept _⟩
  by_contra hclear
  rcases h.cause _ hset (Bool.eq_false_iff.mpr hclear) with ⟨hi, -⟩ | ⟨hi, -⟩
  · exact hlow (Source.index_inj.mp hi)
  · exact hhigh (Source.index_inj.mp hi)

namespace Machine

variable {m : Machine}

theorem isPending_reset_elapse (hc : m.Clocked) (cycles : Nat) :
    (m.elapse cycles).interrupts.isPending .reset = m.interrupts.isPending .reset := by
  induction cycles generalizing m with
  | zero => rfl
  | succ cycles ih =>
    have h0 : m.stepTimer0.interrupts.isPending .reset = m.interrupts.isPending .reset := by
      rw [stepTimer0, takeTimer0_interrupts]
      exact (Timer.reports_step (.inl hc.timer0.layout_eq) m.ram m.interrupts).isPending_reset
        (.inl hc.timer0.layout_eq)
    have h1 : m.stepTimer0.stepTimer1.interrupts.isPending .reset =
        m.stepTimer0.interrupts.isPending .reset := by
      have hl := hc.stepTimer0.timer1.layout_eq
      rw [stepTimer1, takeTimer1_interrupts]
      exact (Timer.reports_step (.inr hl) m.stepTimer0.ram m.stepTimer0.interrupts).isPending_reset
        (.inr hl)
    rw [elapse, ih hc.stepTimer0.stepTimer1, h1, h0]

theorem poll_of_closed (h : m.IsClosed) (hr : ¬ m.Awaits .reset) : m.poll = (m, none) := by
  have hallow {s : Source} : m.enable.allows s = true ↔ s = .reset := by
    rw [Interrupt.Enable.allows_iff]
    refine or_iff_left fun hopen => ?_
    rw [show m.enable.byte = m.register Register.ie from rfl, h] at hopen
    cases hopen
  have haccept : m.accept = m := by
    apply accept_of_nil
    rw [List.eq_nil_iff_forall_not_mem]
    intro s hs
    obtain ⟨hpending, hs, -⟩ := mem_acceptable.mp hs
    rw [hallow.mp hs] at hpending
    exact hr (.inl hpending)
  have hnext : m.accept.next? = none := by
    rw [haccept, next?_eq_none]
    intro s hs
    rw [Bool.eq_false_iff, Ne, canServe_iff]
    rintro ⟨hallowed, -⟩
    rw [hallow.mp hallowed] at hs
    exact hr (.inr hs)
  rw [poll_of_none hnext, haccept]

/-- Nothing is let in and no reset waits. -/
structure IsDeaf (m : Machine) : Prop where
  closed : m.IsClosed
  idle : ¬ m.Awaits .reset

theorem IsDeaf.elapse (h : m.IsDeaf) (hc : m.Clocked) (cycles : Nat) : (m.elapse cycles).IsDeaf := by
  have hie {n : Machine} (hn : n.Clocked) :
      n.register Register.ie = n.ram.cell (.register 0x08) :=
    hn.latches.read_eq_cell (show ¬ Ram.IsCounter 0x08 by decide)
  have hclosed := h.closed
  rw [IsClosed, hie hc] at hclosed
  constructor
  · have hlater : (m.elapse cycles).Clocked := Clocked.invariant.elapse hc cycles
    rw [IsClosed, hie hlater, cell_elapse (o := 0x08) (by decide) hc]
    exact hclosed
  · rw [Awaits, isPending_reset_elapse hc, (passes_elapse m cycles).cpu]
    exact h.idle

variable (hc : m.Clocked) (hm : m.isHalted = true) (hdeaf : m.IsDeaf)

include hc hm hdeaf

/-- The next step of such a sleep is a cycle, and no more. -/
theorem step_of_deaf {n : Machine} {steps : Nat} (hn : n.start = (m.elapse steps).start) :
    n.stepServed = none ∧ n.step.1 = (m.elapse (steps + 1)).start := by
  have hhalted : n.isHalted = true :=
    (congrArg isHalted hn).trans (isHalted_elapse hc hm steps)
  have hcycle : n.start.elapse 1 = (m.elapse (steps + 1)).start := by
    rw [hn, elapse_start, ← elapse_succ]
  have hlater : (m.elapse (steps + 1)).IsDeaf := hdeaf.elapse hc (steps + 1)
  have hpoll : (n.start.elapse 1).poll = (n.start.elapse 1, none) := by
    rw [hcycle]
    exact poll_of_closed hlater.closed hlater.idle
  rw [stepServed_of_halted hhalted, step_of_halted hhalted, hpoll]
  exact ⟨rfl, hcycle⟩

theorem start_runSteps_of_deaf (steps : Nat) :
    (m.runSteps 0 steps).1.start = (m.elapse steps).start := by
  induction steps with
  | zero => rfl
  | succ steps ih =>
    rw [runSteps_succ, (step_of_deaf hc hm hdeaf ih).2]
    rfl

end Machine

/-- **A sleep is time.** As long as no poll serves anything, a halted processor takes one cycle a
step and stays halted, and becomes what its timers alone would make of it, started; but requests
have moved from the controller to the queue, and those that were queued have kept their place. If
maskable sources are held back and no reset waits, then no poll ever serves anything, and no request
moves either. -/
theorem sleep_is_time {m : Machine} (h : Reachable m) (hm : m.isHalted = true) :
    (∀ n, 0 < n → (∀ i < n, (m.runSteps 0 i).1.stepServed = none) →
      (∀ i < n, (m.runSteps 0 i).1.step.2 = 1) ∧
      (∀ i ≤ n, (m.runSteps 0 i).1.isHalted = true) ∧
      (m.elapse n).start.Queues (m.runSteps 0 n).1) ∧
    (m.IsClosed → ¬ m.Awaits .reset → ∀ n,
      (m.runSteps 0 n).1.stepServed = none ∧
      (m.runSteps 0 n).1.step.2 = 1 ∧
      (m.runSteps 0 n).1.isHalted = true ∧
      (0 < n → (m.runSteps 0 n).1 = (m.elapse n).start)) := by
  have hc := h.clocked
  constructor
  · intro n hpos hs
    have hhalted (i : Nat) (hi : i ≤ n) : (m.runSteps 0 i).1.isHalted = true :=
      (Machine.sleepsFor_runSteps hc hm fun k hk => hs k (Nat.lt_of_lt_of_le hk hi)).halted
    refine ⟨?_, hhalted, Machine.queues_runSteps hc hm hpos hs⟩
    intro i hi
    rw [Machine.step_of_halted (hhalted i hi.le)]
  · intro hclosed hidle n
    have hdeaf : m.IsDeaf := ⟨hclosed, hidle⟩
    have hstart := Machine.start_runSteps_of_deaf hc hm hdeaf n
    have hhalted : (m.runSteps 0 n).1.isHalted = true :=
      (congrArg Machine.isHalted hstart).trans (Machine.isHalted_elapse hc hm n)
    refine ⟨(Machine.step_of_deaf hc hm hdeaf hstart).1, ?_, hhalted, ?_⟩
    · rw [Machine.step_of_halted hhalted]
    · intro hpos
      obtain ⟨k, rfl⟩ := Nat.exists_eq_succ_of_ne_zero hpos.ne'
      have hbefore := Machine.start_runSteps_of_deaf hc hm hdeaf k
      rw [Machine.runSteps_succ]
      exact (Machine.step_of_deaf hc hm hdeaf hbefore).2

/-- A processor that sleeps in a low routine, while timer 1 counts up to its first overflow. -/
def sleepingInRoutine : Machine :=
  haltedInRoutine.runActs [.writeRam 0x118 0x41, .writeRam 0x11B 0xFE]

/-- The same with the mask closed. -/
def sleepingMasked : Machine :=
  sleepingInRoutine.runActs [.writeRam 0x108 0]

/-- The request of port 3 is accepted in the first step and that of timer 1 when it comes. -/
theorem sleep_is_time_in_routine :
    let n := (sleepingInRoutine.runSteps 0 4).1
    let k := (sleepingMasked.runSteps 0 1000).1
    n.isHalted = true ∧ n.ram = (sleepingInRoutine.elapse 4).ram ∧
      n.cpu.queue = [.p3, .t1hlov] ∧ (sleepingInRoutine.elapse 4).cpu.queue = [] ∧
      k = (sleepingMasked.elapse 1000).start ∧ k.stepServed = none := by
  intro n k
  have hr : Reachable sleepingInRoutine := (Reachable.idling.runActs _).runActs _
  have hserved : ∀ i < 4, (sleepingInRoutine.runSteps 0 i).1.stepServed = none := by decide +kernel
  obtain ⟨-, hhalted, hqueues⟩ :=
    (sleep_is_time hr (by decide +kernel)).1 4 (by decide) hserved
  have hmasked := (sleep_is_time (hr.runActs [.writeRam 0x108 0]) (by decide +kernel)).2
    (by decide +kernel) (by decide +kernel) 1000
  have hram : n.ram = (sleepingInRoutine.elapse 4).ram := by rw [show n = _ from hqueues.rest]; rfl
  exact ⟨hhalted 4 (by decide), hram, by decide +kernel, by decide +kernel,
    hmasked.2.2.2 (by decide), hmasked.1⟩

end VisualMemory
