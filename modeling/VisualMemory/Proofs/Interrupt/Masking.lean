import VisualMemory.Proofs.Interrupt.WakeUp
import VisualMemory.Proofs.Program.Recast

/-!
# Masking is complete

While the enable register holds maskable sources back, a poll neither accepts nor serves them. So
two machines that differ in which of them are pending or queued run alike until it lets them in,
and a reset, which is never held back, passes them all in both.

* `Machine.UpToMaskable`: the machines differ in maskable requests and in waiting maskable sources.
* `Machine.ClosedAtPolls`: maskable sources are held back at every poll of a run.
* `poll_snd_of_closed`: a closed poll serves a reset or nothing.
* `UpToMaskable.poll`, `UpToMaskable.step`, `UpToMaskable.act`, `UpToMaskable.runActs`: the
  difference stays what it is.
* `masking_complete`: what cannot be told apart in such runs.
-/

namespace VisualMemory

open Interrupt (Source Controller)

namespace Machine

/-- `n` is `m` but for which sources other than a reset are pending and which are queued. -/
structure UpToMaskable (m n : Machine) : Prop where
  rest : n = m.recast m.rom n.interrupts n.cpu.queue
  pending : n.interrupts.isPending .reset = m.interrupts.isPending .reset
  queued : .reset ∈ n.cpu.queue ↔ .reset ∈ m.cpu.queue

/-- The enable register holds maskable sources back. -/
def IsClosed (m : Machine) : Prop :=
  (m.register Register.ie).bit 7 = false

instance (m : Machine) : Decidable m.IsClosed :=
  inferInstanceAs (Decidable (_ = _))

/-- Maskable sources are held back at the polls of so many steps. -/
def ClosedFor (m : Machine) : Nat → Prop
  | 0 => True
  | steps + 1 => m.advance.1.IsClosed ∧ m.step.1.ClosedFor steps

instance decidableClosedFor : (m : Machine) → (steps : Nat) → Decidable (m.ClosedFor steps)
  | _, 0 => isTrue trivial
  | m, steps + 1 =>
    have := decidableClosedFor m.step.1 steps
    inferInstanceAs (Decidable (_ ∧ _))

end Machine

/-- Maskable sources are held back at the polls of an act. -/
def Act.ClosedAtPolls (m : Machine) : Act → Prop
  | step => m.ClosedFor 1
  | runFor cycles => m.ClosedFor (m.stepsFor cycles.toNat)
  | poll => m.IsClosed
  | _ => True

namespace Machine

/-- Maskable sources are held back at every poll of the acts. -/
def ClosedAtPolls (m : Machine) : List Act → Prop
  | [] => True
  | a :: acts => a.ClosedAtPolls m ∧ (a.run m).ClosedAtPolls acts

/-! ## Closed polls -/

theorem IsClosed.canTake_iff {m : Machine} (h : m.IsClosed) (hn : m.Nested) {s : Source} :
    m.CanTake s ↔ s = .reset ∧ m.Awaits .reset := by
  have hopen : ¬ (m.register Register.ie).bit 7 = true := by
    rw [h]
    decide
  constructor
  · rintro ⟨hawait, hallow, -⟩
    obtain rfl := hallow.resolve_right hopen
    exact ⟨rfl, hawait⟩
  · rintro ⟨rfl, hawait⟩
    exact hn.canTake_reset hawait

/-- A closed poll serves a reset that waits, and nothing else. -/
theorem poll_snd_of_closed {m : Machine} (hn : m.Nested) (h : m.IsClosed) :
    m.poll.2 = if m.Awaits .reset then some .reset else none := by
  split
  · rename_i hawait
    have hsome := hn.poll_isSome_iff.mpr ⟨.reset, (h.canTake_iff hn).mpr ⟨rfl, hawait⟩⟩
    obtain ⟨s, hs⟩ := Option.isSome_iff_exists.mp hsome
    rw [hs, ((h.canTake_iff hn).mp (Nested.poll_eq_some hs)).1]
  · rename_i hawait
    cases hp : m.poll.2 with
    | none => rfl
    | some s => exact absurd ((h.canTake_iff hn).mp (Nested.poll_eq_some hp)).2 hawait

namespace UpToMaskable

variable {m n : Machine}

theorem refl (m : Machine) : m.UpToMaskable m :=
  ⟨rfl, rfl, Iff.rfl⟩

theorem eq_recast (h : m.UpToMaskable n) : ∃ c q, n = m.recast m.rom c q :=
  ⟨_, _, h.rest⟩

theorem visible (h : m.UpToMaskable n) :
    (m.cpu.pc = n.cpu.pc ∧ m.cpu.program = n.cpu.program ∧ m.cpu.runState = n.cpu.runState ∧
      m.cpu.level = n.cpu.level ∧ m.cpu.services = n.cpu.services) ∧
    m.ram = n.ram ∧ m.flash = n.flash ∧ m.timer0 = n.timer0 ∧ m.timer1 = n.timer1 ∧
    m.buzzer = n.buzzer := by
  obtain ⟨c, q, rfl⟩ := h.eq_recast
  exact ⟨⟨rfl, rfl, rfl, rfl, rfl⟩, rfl, rfl, rfl, rfl, rfl⟩

theorem register_eq (h : m.UpToMaskable n) (address : UInt16) :
    n.register address = m.register address := by
  rw [h.rest]
  rfl

theorem isClosed (h : m.UpToMaskable n) (hm : m.IsClosed) : n.IsClosed := by
  rw [IsClosed, h.register_eq]
  exact hm

theorem awaits_reset (h : m.UpToMaskable n) : n.Awaits .reset ↔ m.Awaits .reset := by
  rw [Awaits, Awaits, h.pending, h.queued]

theorem poll_snd (h : m.UpToMaskable n) (hm : m.Nested) (hn : n.Nested) (hclosed : m.IsClosed) :
    n.poll.2 = m.poll.2 := by
  rw [poll_snd_of_closed hm hclosed, poll_snd_of_closed hn (h.isClosed hclosed)]
  simp only [h.awaits_reset]

theorem poll (h : m.UpToMaskable n) (hm : m.Nested) (hn : n.Nested) (hclosed : m.IsClosed) :
    m.poll.1.UpToMaskable n.poll.1 := by
  have hsnd := h.poll_snd hm hn hclosed
  rcases poll_cases m with ⟨-, hp⟩ | ⟨s, -, hp⟩
  · -- nothing is served, so no reset waits in either
    rcases poll_cases n with ⟨-, hp'⟩ | ⟨t, -, hp'⟩
    · have hidle : ¬ m.Awaits .reset := by
        intro hawait
        have hserved := poll_snd_of_closed hm hclosed
        rw [if_pos hawait, hp] at hserved
        cases hserved
      have hidle' := mt h.awaits_reset.mp hidle
      rw [← awaits_accept, Awaits, not_or] at hidle hidle'
      rw [hp, hp']
      constructor
      · obtain ⟨c, q, rfl⟩ := h.eq_recast
        rfl
      · rw [Bool.eq_false_iff.mpr hidle.1, Bool.eq_false_iff.mpr hidle'.1]
      · exact iff_of_false hidle'.2 hidle.2
    · rw [hp, hp'] at hsnd
      cases hsnd
  · -- a reset leaves no difference
    have hs : s = .reset := by
      have hserved : m.poll.2 = some s := by rw [hp]
      exact ((hclosed.canTake_iff hm).mp (Nested.poll_eq_some hserved)).1
    rcases poll_cases n with ⟨-, hp'⟩ | ⟨t, -, hp'⟩
    · rw [hp, hp'] at hsnd
      cases hsnd
    · rw [hp, hp'] at hsnd
      cases hsnd
      have hsame : n.poll.1 = m.poll.1 := by
        rw [hp, hp', hs]
        obtain ⟨c, q, rfl⟩ := h.eq_recast
        rfl
      rw [hsame]
      exact refl _

/-! ## Steps -/

/-- What asks for the same services whatever is pending and queued keeps the difference. -/
theorem map {f : Machine → Machine} {l : List Source} (h : m.UpToMaskable n)
    (hf : ∀ c q, f (m.recast m.rom c q) = (f m).recast m.rom (l.foldl (·.raise ·) c) q) :
    (f m).UpToMaskable (f n) := by
  have hm : f m = (f m).recast m.rom (l.foldl (·.raise ·) m.interrupts) m.cpu.queue :=
    hf m.interrupts m.cpu.queue
  have hn : f n = (f m).recast m.rom (l.foldl (·.raise ·) n.interrupts) n.cpu.queue := by
    rw [← hf, ← h.rest]
  constructor
  · rw [hn, hm]
    rfl
  · rw [hn, hm, Bool.eq_iff_iff]
    show (l.foldl (·.raise ·) n.interrupts).isPending .reset = true ↔
      (l.foldl (·.raise ·) m.interrupts).isPending .reset = true
    rw [Controller.isPending_foldl_raise, Controller.isPending_foldl_raise, h.pending]
  · rw [hn, hm]
    exact h.queued

theorem advance_eq (h : m.UpToMaskable n) :
    n.advance = (m.advance.1.recast m.rom (m.stepRaised.foldl (·.raise ·) n.interrupts)
      n.cpu.queue, m.advance.2) := by
  rw [h.rest]
  exact advance_recast (fun _ => rfl) ..

theorem advance (h : m.UpToMaskable n) : m.advance.1.UpToMaskable n.advance.1 :=
  h.map (f := (·.advance.1)) fun c q => congrArg Prod.fst (advance_recast (fun _ => rfl) c q)

theorem step_cycles (h : m.UpToMaskable n) : n.step.2 = m.step.2 := by
  show n.advance.2 = m.advance.2
  rw [h.advance_eq]

theorem stepServed_eq (h : m.UpToMaskable n) (hm : m.Nested) (hn : n.Nested)
    (hclosed : m.advance.1.IsClosed) : n.stepServed = m.stepServed :=
  h.advance.poll_snd hm.advance hn.advance hclosed

theorem step (h : m.UpToMaskable n) (hm : m.Nested) (hn : n.Nested)
    (hclosed : m.advance.1.IsClosed) : m.step.1.UpToMaskable n.step.1 :=
  h.advance.poll hm.advance hn.advance hclosed

theorem runFor (h : m.UpToMaskable n) (hm : m.Nested) (hn : n.Nested) {cycles : Nat}
    (hclosed : m.ClosedFor (m.stepsFor cycles)) :
    (m.runFor cycles).1.UpToMaskable (n.runFor cycles).1 := by
  let R (left : Nat) (m n : Machine) : Prop :=
    m.UpToMaskable n ∧ m.Nested ∧ n.Nested ∧ m.ClosedFor (m.stepsFor left)
  have hstep (left : Nat) (m n : Machine) (hleft : left ≠ 0) (hR : R left m n) :
      m.step.2 = n.step.2 ∧ R (left - m.step.2) m.step.1 n.step.1 := by
    obtain ⟨h, hm, hn, hclosed⟩ := hR
    rw [stepsFor_of_ne_zero m hleft] at hclosed
    exact ⟨h.step_cycles.symm, h.step hm hn hclosed.1, hm.step, hn.step, hclosed.2⟩
  have hrun := runOn_related (R := R) hstep ⟨h, hm, hn, hclosed⟩ 0
  exact hrun.1.1

/-! ## Acts -/

theorem act (h : m.UpToMaskable n) (hm : m.Nested) (hn : n.Nested) {a : Act}
    (hclosed : a.ClosedAtPolls m) : (a.run m).UpToMaskable (a.run n) := by
  by_cases ha : a.isBlind = true
  · exact h.map (f := a.run) fun c q => Act.run_recast (fun _ => rfl) c q ha
  · -- what is left polls, or sets the pending word or the ROM of both machines alike
    cases a with
    | step => exact h.step hm hn hclosed.1
    | runFor cycles => exact h.runFor hm hn hclosed
    | poll => exact h.poll hm hn hclosed
    | reset | directBoot =>
      obtain ⟨c, q, rfl⟩ := h.eq_recast
      exact ⟨rfl, rfl, Iff.rfl⟩
    | lower s =>
      constructor
      · obtain ⟨c, q, rfl⟩ := h.eq_recast
        rfl
      · show (n.interrupts.lower s).isPending .reset = (m.interrupts.lower s).isPending .reset
        rw [Controller.isPending_lower, Controller.isPending_lower, h.pending]
      · exact h.queued
    | lowerAll | restore =>
      obtain ⟨c, q, rfl⟩ := h.eq_recast
      exact ⟨rfl, rfl, h.queued⟩
    | loadRom =>
      obtain ⟨c, q, rfl⟩ := h.eq_recast
      exact ⟨rfl, h.pending, h.queued⟩
    | _ => exact absurd rfl ha

theorem runActs (h : m.UpToMaskable n) (hm : m.Nested) (hn : n.Nested) {acts : List Act}
    (hclosed : m.ClosedAtPolls acts) : (m.runActs acts).UpToMaskable (n.runActs acts) := by
  induction acts generalizing m n with
  | nil => exact h
  | cons a acts ih => exact ih (h.act hm hn hclosed.1) (hm.act a) (hn.act a) hclosed.2

end UpToMaskable

theorem ClosedAtPolls.append {m : Machine} {before after : List Act}
    (h : m.ClosedAtPolls (before ++ after)) :
    m.ClosedAtPolls before ∧ (m.runActs before).ClosedAtPolls after := by
  induction before generalizing m with
  | nil => exact ⟨trivial, h⟩
  | cons a before ih =>
    obtain ⟨hbefore, hafter⟩ := ih h.2
    exact ⟨⟨h.1, hbefore⟩, hafter⟩

end Machine

/-- **Masking is complete.** Take two reachable machines that differ at most in which maskable
sources are pending and which are queued, and do the same to both, with maskable sources held back
at every poll. Then every step takes the same time in both and serves the same in both, a reset if
one waits, and it leaves the same processor but for the queue, the same RAM, flash and timers, and
the same buzzer. -/
theorem masking_complete {m n : Machine} (hm : Reachable m) (hn : Reachable n)
    (h : m.UpToMaskable n) {acts : List Act} (hclosed : m.ClosedAtPolls (acts ++ [.step])) :
    let m' := m.runActs acts
    let n' := n.runActs acts
    m'.step.2 = n'.step.2 ∧
    m'.stepServed = n'.stepServed ∧
    (m'.Awaits .reset → m'.stepServed = some .reset) ∧
    (m'.step.1.cpu.pc = n'.step.1.cpu.pc ∧ m'.step.1.cpu.program = n'.step.1.cpu.program ∧
      m'.step.1.cpu.runState = n'.step.1.cpu.runState ∧
      m'.step.1.cpu.level = n'.step.1.cpu.level ∧
      m'.step.1.cpu.services = n'.step.1.cpu.services) ∧
    m'.step.1.ram = n'.step.1.ram ∧ m'.step.1.flash = n'.step.1.flash ∧
    m'.step.1.timer0 = n'.step.1.timer0 ∧ m'.step.1.timer1 = n'.step.1.timer1 ∧
    m'.step.1.buzzer = n'.step.1.buzzer := by
  intro m' n'
  obtain ⟨hacts, hpoll, -⟩ := hclosed.append
  have hm' : m'.Nested := (hm.runActs acts).nested
  have hn' : n'.Nested := (hn.runActs acts).nested
  have hrun : m'.UpToMaskable n' := h.runActs hm.nested hn.nested hacts
  have hserved := hrun.stepServed_eq hm' hn' hpoll.1
  refine ⟨hrun.step_cycles.symm, hserved.symm, ?_, ?_⟩
  · intro hawait
    have hawait' : m'.advance.1.Awaits .reset := by
      rcases hawait with hpending | hqueue
      · left
        rw [Machine.interrupts_advance]
        exact (Controller.isPending_foldl_raise ..).mpr (.inl hpending)
      · right
        rw [Machine.queue_advance]
        exact hqueue
    exact (Machine.poll_snd_of_closed hm'.advance hpoll.1).trans (if_pos hawait')
  · exact (hrun.step hm' hn' hpoll.1).visible

/-- A processor in a low routine, with maskable sources let in. -/
def inLowRoutine : Machine :=
  Machine.idling.runActs [.writeRam 0x108 0x80, .raise .int2, .poll]

/-- The mask is closed, and nothing waits. -/
def maskedIdle : Machine :=
  inLowRoutine.runActs [.writeRam 0x108 0]

/-- The mask is closed on a source that is in the queue already. -/
def maskedWaiting : Machine :=
  inLowRoutine.runActs [.raise .p3, .poll, .writeRam 0x108 0]

theorem maskedIdle_upToMaskable : maskedIdle.UpToMaskable maskedWaiting := by
  let m := (Act.raise .p3).run inLowRoutine
  have hnone : m.accept.next? = none := by decide +kernel
  have hpoll : maskedWaiting = (Act.writeRam 0x108 0).run m.poll.1 := by
    simp only [maskedWaiting, Machine.runActs, List.foldl_cons, List.foldl_nil]
    rfl
  rw [Machine.poll_of_none hnone] at hpoll
  constructor
  · rw [hpoll]
    rfl
  · decide +kernel
  · decide +kernel

/-- A request while the mask is closed, a step, and a reset. -/
def resetBehindMask : List Act :=
  [.raise .int0, .step, .raise .reset]

theorem masking_complete_waiting :
    let m := maskedIdle.runActs resetBehindMask
    let n := maskedWaiting.runActs resetBehindMask
    maskedWaiting.cpu.queue = [.p3] ∧ maskedIdle.cpu.queue = [] ∧ m.step.2 = n.step.2 ∧
      m.stepServed = some .reset ∧ m.stepServed = n.stepServed := by
  intro m n
  have hm : Reachable maskedIdle := (Reachable.idling.runActs _).runActs _
  have hn : Reachable maskedWaiting := (Reachable.idling.runActs _).runActs _
  have hfirst : ((Act.raise .int0).run maskedIdle).ClosedFor 1 := by decide +kernel
  have hlast : m.ClosedFor 1 := by decide +kernel
  have hclosed : maskedIdle.ClosedAtPolls (resetBehindMask ++ [.step]) :=
    ⟨trivial, hfirst, trivial, hlast, trivial⟩
  have hrun := masking_complete hm hn maskedIdle_upToMaskable hclosed
  have hawait : m.Awaits .reset := by decide +kernel
  exact ⟨by decide +kernel, by decide +kernel, hrun.1, hrun.2.2.1 hawait, hrun.2.1⟩

end VisualMemory
