import VisualMemory.Proofs.Interrupt.Nesting
import VisualMemory.Proofs.Program.Recast

/-!
# What polls do to the queue

Between two polls the queue stays as it is, so what becomes of it in a run is told by the polls
alone: by what each of them accepted and what it served.

* `Interrupt.Turn`, `Act.turns`, `Machine.turns`: the polls of an act and of a run, in order.
* `Turn.Takes`: what one turn makes of a queue. `Machine.Nested.takes_poll`: so does every poll.
* `Turn.History`: what turns make of a queue, one after the other.
* `Machine.Nested.history`: the queue after a run is what its turns make of the queue before.
-/

namespace VisualMemory

open Interrupt (Source)

namespace Interrupt

/-- The source's place in the order of priority; the highest comes first. -/
def Source.priority (s : Source) : Nat :=
  all.idxOf s

theorem Source.pairwise_all : all.Pairwise (·.priority < ·.priority) := by
  decide

theorem Source.isMaskable_iff {s : Source} : s.isMaskable = true ↔ s.level ≠ .nonMaskable := by
  cases s <;> decide

/-- One poll: the sources that it accepted, in order, and the source that it served. A reset by a
front end is a turn that accepts nothing and serves a reset. -/
structure Turn where
  accepted : List Source
  served : Option Source
  deriving DecidableEq

/-- The turn takes the source off the queue: it serves the source, or a reset, which leaves
nothing. -/
def Turn.removes (t : Turn) (s : Source) : Bool :=
  t.served == some s || t.served == some .reset

end Interrupt

open Interrupt (Turn)

/-! ## The turns of a run -/

namespace Machine

def turn (m : Machine) : Turn :=
  ⟨m.acceptable, m.poll.2⟩

def stepTurn (m : Machine) : Turn :=
  m.advance.1.turn

def stepsTurns (m : Machine) : Nat → List Turn
  | 0 => []
  | steps + 1 => m.stepTurn :: m.step.1.stepsTurns steps

end Machine

def Act.turns (m : Machine) : Act → List Turn
  | step => [m.stepTurn]
  | runFor cycles => m.stepsTurns (m.stepsFor cycles.toNat)
  | poll => [m.turn]
  | reset | directBoot _ => [⟨[], some .reset⟩]
  | _ => []

def Machine.turns (m : Machine) : List Act → List Turn
  | [] => []
  | a :: acts => a.turns m ++ (a.run m).turns acts

/-! ## What a turn makes of a queue -/

namespace Interrupt.Turn

/-- The turn takes the queue `q` to the queue `q'`: it puts what it accepts at the end, and what it
serves has nothing of its level in front. -/
structure Takes (t : Turn) (q q' : List Source) : Prop where
  by_priority : t.accepted.Pairwise (·.priority < ·.priority)
  first : ∀ front s back, q ++ t.accepted = front ++ s :: back → t.served = some s →
    ∀ u ∈ front, u.level ≠ s.level
  left : q' = (q ++ t.accepted).filter fun s => !t.removes s

/-- The turns take the queue from `q` to `q'`, one after the other. -/
inductive History (q : List Source) : List Turn → List Source → Prop
  | nil : History q [] q
  | snoc {turns : List Turn} {t : Turn} {q' q'' : List Source} (h : History q turns q')
      (ht : t.Takes q' q'') : History q (turns ++ [t]) q''

namespace History

variable {q q' q'' : List Source} {turns turns' : List Turn}

theorem trans (h : History q turns q') (h' : History q' turns' q'') :
    History q (turns ++ turns') q'' := by
  induction h' with
  | nil => rwa [List.append_nil]
  | snoc _ ht ih =>
    rw [← List.append_assoc]
    exact ih.snoc ht

theorem single {t : Turn} (h : t.Takes q q') : History q [t] q' :=
  .snoc .nil h

theorem of_eq (h : q' = q) : History q [] q' :=
  h ▸ .nil

theorem eq_of_nil (h : History q [] q') : q' = q := by
  generalize hturns : ([] : List Turn) = turns at h
  cases h with
  | nil => rfl
  | snoc => exact absurd hturns (by simp)

end History

theorem takes_reset {q : List Source} (h : q.Nodup) : Takes ⟨[], some .reset⟩ q [] where
  by_priority := .nil
  first := by
    intro front s back hq hs u hu hlevel
    obtain rfl := Option.some.inj hs
    have hreset : u = .reset := by
      cases u with
      | reset => rfl
      | _ => cases hlevel
    rw [List.append_nil] at hq
    rw [hq, List.nodup_append] at h
    exact h.2.2 u hu .reset (List.mem_cons_self ..) hreset
  left := by simp [removes]

end Interrupt.Turn

open Interrupt.Turn (History takes_reset)

namespace Machine

/-! ## Polls -/

theorem pairwise_acceptable (m : Machine) :
    m.acceptable.Pairwise (·.priority < ·.priority) :=
  (Source.pairwise_all.filter _).filter _

theorem canServe_congr (m : Machine) {s t : Source} (h : s.level = t.level) :
    m.canServe s = m.canServe t := by
  have hmask : s.isMaskable = t.isMaskable := by
    rw [Bool.eq_iff_iff, Source.isMaskable_iff, Source.isMaskable_iff, h]
  rw [canServe, canServe, Interrupt.Enable.allows, Interrupt.Enable.allows, hmask, h]

/-- The source that is served has nothing in front of it that could be served. -/
theorem canServe_front {m : Machine} {s : Source} {front back : List Source}
    (hn : m.cpu.queue.Nodup) (hs : m.next? = some s) (hq : m.cpu.queue = front ++ s :: back) :
    ∀ u ∈ front, m.canServe u = false := by
  intro u hu
  cases hserve : m.canServe u with
  | false => rfl
  | true =>
    have hsome : (front.find? m.canServe).isSome := List.find?_isSome.mpr ⟨u, hu, hserve⟩
    obtain ⟨t, ht⟩ := Option.isSome_iff_exists.mp hsome
    have hmem : s ∈ front := by
      rw [next?, hq, List.find?_append, ht] at hs
      obtain rfl := Option.some.inj hs
      exact List.mem_of_find?_eq_some ht
    rw [hq, List.nodup_append] at hn
    exact absurd rfl (hn.2.2 s hmem s (List.mem_cons_self ..))

namespace Nested

variable {m : Machine} (h : m.Nested)

include h

theorem queue_poll : m.poll.1.cpu.queue = m.accept.cpu.queue.filter fun s => !m.turn.removes s := by
  rcases poll_cases m with ⟨-, hp⟩ | ⟨s, -, hp⟩
  · have hremoves (u : Source) : m.turn.removes u = false := by
      simp [turn, Turn.removes, hp]
    simp only [hp, hremoves]
    exact (List.filter_eq_self.mpr fun _ _ => rfl).symm
  · by_cases hr : s = .reset
    · have hremoves (u : Source) : m.turn.removes u = true := by
        simp [turn, Turn.removes, hp, hr]
      simp [hp, hremoves, hr, serve_reset, reset]
    · have hqueue := queue_poll_of_ne (by rw [hp]) hr
      have hremoves (u : Source) : m.turn.removes u = (u == s) := by
        simp [turn, Turn.removes, hp, hr, Bool.beq_comm]
      simp only [hqueue, hremoves, h.accept.queued_once.erase_eq_filter]
      rfl

theorem takes_poll : m.turn.Takes m.cpu.queue m.poll.1.cpu.queue where
  by_priority := pairwise_acceptable m
  first := by
    intro front s back hq hs u hu hlevel
    rcases poll_cases m with ⟨-, hp⟩ | ⟨t, hnext, hp⟩
    · rw [turn, hp] at hs
      cases hs
    · rw [turn, hp] at hs
      obtain rfl := Option.some.inj hs
      have hidle := canServe_front h.accept.queued_once hnext hq u hu
      rw [canServe_congr _ hlevel, (next?_eq_some hnext).2] at hidle
      cases hidle
  left := h.queue_poll

end Nested

/-! ## Runs -/

theorem Nested.history_step {m : Machine} (h : m.Nested) :
    History m.cpu.queue [m.stepTurn] m.step.1.cpu.queue := by
  have hpoll := h.advance.takes_poll
  rw [queue_advance] at hpoll
  exact .single hpoll

theorem Nested.history_runSteps {m : Machine} (h : m.Nested) (elapsed steps : Nat) :
    History m.cpu.queue (m.stepsTurns steps) (m.runSteps elapsed steps).1.cpu.queue := by
  induction steps generalizing m elapsed with
  | zero => exact .nil
  | succ steps ih => exact h.history_step.trans (ih h.step _)

end Machine

open Machine in
theorem Act.history {m : Machine} (h : m.Nested) (a : Act) :
    History m.cpu.queue (a.turns m) (a.run m).cpu.queue := by
  cases a with
  | step => exact h.history_step
  | runFor cycles =>
    show History _ _ (m.runOn 0 cycles.toNat).1.cpu.queue
    rw [runOn_eq_runSteps]
    exact h.history_runSteps ..
  | instruction noted => exact .of_eq (runs_processInstruction m noted).outside.queue
  | execute raw => exact .of_eq (runs_execute m raw).outside.queue
  | poll => exact .single h.takes_poll
  | stepTimer0 => exact .of_eq (congrArg Cpu.queue (passes_takeTimer0 m _).cpu)
  | stepTimer1 => exact .of_eq (congrArg Cpu.queue (passes_takeTimer1 m _).cpu)
  | tickTimer0 => exact .of_eq (congrArg Cpu.queue (passes_takeTimer0 m _).cpu)
  | tickTimer1 => exact .of_eq (congrArg Cpu.queue (passes_takeTimer1 m _).cpu)
  | reset | directBoot => exact .single (takes_reset h.queued_once)
  | writeProgram address value =>
    rw [run, writeProgram_eq]
    exact .nil
  | _ => exact .nil

namespace Machine

/-- The queue after a run is what the run's turns make of the queue before. -/
theorem Nested.history {m : Machine} (h : m.Nested) (acts : List Act) :
    History m.cpu.queue (m.turns acts) (m.runActs acts).cpu.queue := by
  induction acts generalizing m with
  | nil => exact .nil
  | cons a acts ih => exact (Act.history h a).trans (ih (h.act a))

theorem turns_append (m : Machine) (before after : List Act) :
    m.turns (before ++ after) = m.turns before ++ (m.runActs before).turns after := by
  induction before generalizing m with
  | nil => rfl
  | cons a before ih =>
    rw [List.cons_append, turns, turns, ih, List.append_assoc]
    rfl

end Machine

end VisualMemory
