import VisualMemory.Proofs.Interrupt.Conservation
import VisualMemory.Proofs.Interrupt.Turn
import VisualMemory.Proofs.Interrupt.WakeUp

/-!
# A reset is served in time

A reset waits in the same queue as all other sources. Still nothing holds it up: it is always let in
and above the level that runs, so every poll serves it or a source in front of it, and no source
gets in front of it later. There are ten others, and none is in the queue twice.

* `Machine.ahead`: how many sources are in front of a reset.
* `Machine.Nested.poll_of_reset`: a poll serves the reset, or it comes nearer.
* `Machine.Nears`: what the turns of a run do to a reset that waits; they add up.
* `reset_not_starved`: so it is served within eleven polls.
-/

namespace VisualMemory

open Interrupt (Source Turn)

namespace Machine

/-- How many sources are in front of a reset in the queue. A reset that is not in the queue yet has
all of the queue in front of it. -/
def ahead (m : Machine) : Nat :=
  m.cpu.queue.idxOf .reset

/-! ## One poll -/

theorem idxOf_reset_acceptable {m : Machine} (h : .reset ∈ m.acceptable) :
    m.acceptable.idxOf .reset = 0 := by
  have hsorted := pairwise_acceptable m
  cases ha : m.acceptable with
  | nil =>
    rw [ha] at h
    cases h
  | cons s rest =>
    rw [ha] at h hsorted
    rcases List.mem_cons.mp h with rfl | hrest
    · exact List.idxOf_cons_self
    · exact absurd ((List.pairwise_cons.mp hsorted).1 _ hrest) (Nat.not_lt_zero _)

theorem idxOf_erase_lt {front back : List Source} {s r : Source} (hs : s ∉ front) (hr : r ∉ front)
    (hne : s ≠ r) :
    ((front ++ s :: back).erase s).idxOf r < (front ++ s :: back).idxOf r := by
  have hnext : (s :: back).idxOf r = back.idxOf r + 1 := by
    rw [List.idxOf_cons, beq_false_of_ne hne, cond_false]
  rw [List.erase_append_right _ hs, List.erase_cons_head, List.idxOf_append, List.idxOf_append,
    if_neg hr, if_neg hr, hnext]
  omega

namespace Nested

variable {m : Machine} (h : m.Nested)

include h

/-- Acceptance puts a reset behind the queue that there is, and nothing else in front of it. -/
theorem ahead_accept (hr : m.Awaits .reset) : m.accept.ahead = m.ahead := by
  have hmem := mem_accept_queue.mp (h.mem_queue_of_canTake (h.canTake_reset hr))
  show (m.cpu.queue ++ m.acceptable).idxOf .reset = m.cpu.queue.idxOf .reset
  rw [List.idxOf_append]
  by_cases hq : .reset ∈ m.cpu.queue
  · rw [if_pos hq]
  · rw [if_neg hq, idxOf_reset_acceptable (hmem.resolve_left hq), List.idxOf_eq_length hq,
      Nat.zero_add]

theorem ahead_le (hr : m.Awaits .reset) : m.ahead ≤ 10 := by
  have hmem := h.mem_queue_of_canTake (h.canTake_reset hr)
  have hlength : m.accept.cpu.queue.length ≤ Source.all.length :=
    h.accept.queued_once.length_le_of_subset fun s _ => s.mem_all
  have hlt : m.accept.ahead < m.accept.cpu.queue.length := List.idxOf_lt_length_of_mem hmem
  have hall : Source.all.length = 11 := rfl
  rw [h.ahead_accept hr] at hlt
  omega

/-- A poll serves a reset that waits, or something in front of it. -/
theorem poll_of_reset (hr : m.Awaits .reset) :
    m.poll = ((m.note .resetRequested).reset, some .reset) ∨
    ∃ s, s ≠ .reset ∧ m.poll.2 = some s ∧ .reset ∈ m.poll.1.cpu.queue ∧
      m.poll.1.ahead < m.ahead := by
  have htake := h.canTake_reset hr
  have hmem := h.mem_queue_of_canTake htake
  have hserve : m.accept.canServe .reset = true :=
    (canTake_iff.mp (canTake_accept.mpr htake)).2
  rcases poll_cases m with ⟨hnone, -⟩ | ⟨s, hsome, hp⟩
  · rw [next?_eq_none.mp hnone _ hmem] at hserve
    cases hserve
  · by_cases hs : s = .reset
    · left
      rw [hp, hs]
      rfl
    · right
      obtain ⟨-, front, back, hq, hidle⟩ := List.find?_eq_some_iff_append.mp hsome
      have hserved : m.poll.2 = some s := by rw [hp]
      have hqueue := queue_poll_of_ne hserved hs
      have hfront : .reset ∉ front := by
        intro hreset
        have hnot := hidle _ hreset
        rw [hserve] at hnot
        cases hnot
      have hfront' : s ∉ front := by
        have hnodup := h.accept.queued_once
        rw [hq, List.nodup_append] at hnodup
        exact fun hs' => hnodup.2.2 s hs' s (List.mem_cons_self ..) rfl
      refine ⟨s, hs, hserved, ?_, ?_⟩
      · rw [hqueue]
        exact (List.mem_erase_of_ne (Ne.symm hs)).mpr hmem
      · rw [← h.ahead_accept hr, ahead, ahead, hqueue, hq]
        exact idxOf_erase_lt hfront' hfront hs

end Nested

/-! ## Many polls -/

/-- In these turns, from `m` to `n`, a reset is served before the sources in front of it have run
out; or it still waits, and has come nearer by as many places as there were turns. -/
def Nears (turns : List Turn) (m n : Machine) : Prop :=
  (∃ t ∈ turns.take (m.ahead + 1), t.served = some .reset) ∨
    n.Awaits .reset ∧ n.ahead + turns.length ≤ m.ahead

namespace Nears

variable {turns turns' : List Turn} {m n k : Machine}

theorem trans (h : Nears turns m n) (h' : n.Awaits .reset → Nears turns' n k) :
    Nears (turns ++ turns') m k := by
  rcases h with ⟨t, ht, hserved⟩ | ⟨hawait, hahead⟩
  · left
    rw [List.take_append]
    exact ⟨t, List.mem_append_left _ ht, hserved⟩
  · rcases h' hawait with ⟨t, ht, hserved⟩ | ⟨hawait', hahead'⟩
    · left
      have hle : n.ahead + 1 ≤ m.ahead + 1 - turns.length := by omega
      rw [List.take_append]
      exact ⟨t, List.mem_append_right _ (List.take_subset_take_left _ hle ht), hserved⟩
    · right
      rw [List.length_append]
      exact ⟨hawait', by omega⟩

theorem of_carries {r : Nat} (h : Carries .reset 0 r m n) (hr : m.Awaits .reset)
    (hq : n.cpu.queue = m.cpu.queue) : Nears [] m n := by
  right
  refine ⟨h.awaits hr, ?_⟩
  rw [ahead, ahead, hq]
  exact Nat.le_refl _

end Nears

theorem Nested.nears_poll {m : Machine} (h : m.Nested) (hr : m.Awaits .reset) :
    Nears [m.turn] m m.poll.1 := by
  rcases h.poll_of_reset hr with hp | ⟨s, -, -, hmem, hlt⟩
  · left
    exact ⟨m.turn, by simp, by rw [turn, hp]⟩
  · right
    exact ⟨.inr hmem, hlt⟩

theorem Nested.nears_step {m : Machine} (h : m.Nested) (hr : m.Awaits .reset) :
    Nears [m.stepTurn] m m.step.1 := by
  have htime : Nears [] m m.advance.1 :=
    .of_carries (carries_advance m .reset) hr (queue_advance m)
  exact htime.trans fun hr' => h.advance.nears_poll hr'

theorem Nested.nears_runSteps {m : Machine} (h : m.Nested) (hr : m.Awaits .reset)
    (elapsed steps : Nat) : Nears (m.stepsTurns steps) m (m.runSteps elapsed steps).1 := by
  induction steps generalizing m elapsed with
  | zero => exact .inr ⟨hr, Nat.le_refl _⟩
  | succ steps ih => exact (h.nears_step hr).trans fun hr' => ih h.step hr' _

end Machine

open Machine in
theorem Act.nears {m : Machine} (h : m.Nested) (hr : m.Awaits .reset) {a : Act}
    (ha : a.keepsRequests = true) : Nears (a.turns m) m (a.run m) := by
  have hquiet (hturns : a.turns m = []) (hserved : a.served m = []) :
      Nears (a.turns m) m (a.run m) := by
    have hcarries := Act.carries h ha (by rw [hserved]; exact List.not_mem_nil) .reset
    have hqueue := (Act.history h a)
    rw [hserved] at hcarries
    rw [hturns] at hqueue ⊢
    exact .of_carries hcarries hr hqueue.eq_of_nil
  cases a with
  | step => exact h.nears_step hr
  | runFor cycles =>
    show Nears _ m (m.runOn 0 cycles.toNat).1
    rw [runOn_eq_runSteps]
    exact h.nears_runSteps hr ..
  | poll => exact h.nears_poll hr
  | reset | directBoot => cases ha
  | _ => exact hquiet rfl rfl

theorem Machine.Nested.nears_runActs {m : Machine} (h : m.Nested) (hr : m.Awaits .reset)
    {acts : List Act} (ha : ∀ a ∈ acts, a.keepsRequests = true) :
    Nears (m.turns acts) m (m.runActs acts) := by
  induction acts generalizing m with
  | nil => exact .inr ⟨hr, Nat.le_refl _⟩
  | cons a acts ih =>
    exact (Act.nears h hr (ha a (List.mem_cons_self ..))).trans fun hr' =>
      ih (h.act a) hr' fun b hb => ha b (List.mem_cons_of_mem _ hb)

/-- **A reset is neither starved nor masked.** If a reset waits in a reachable machine, pending or
in the queue, then whatever else the machine is doing its next poll serves something: the reset,
after which nothing is queued, in service or pending and the processor is at address 0; or another
source, and then the reset is in the queue with fewer sources in front of it than before. So
whatever happens between polls, as long as no request is taken back, one of the next eleven polls
serves it. -/
theorem reset_not_starved {m : Machine} (h : Reachable m) (hr : m.Awaits .reset) :
    ((m.poll.2 = some .reset ∧ m.poll.1 = (m.note .resetRequested).reset ∧
        m.poll.1.cpu.pc = 0 ∧ m.poll.1.cpu.queue = [] ∧ m.poll.1.cpu.services = [] ∧
        ∀ s, m.poll.1.interrupts.isPending s = false) ∨
      (∃ s, s ≠ .reset ∧ m.poll.2 = some s ∧ .reset ∈ m.poll.1.cpu.queue ∧
        m.poll.1.ahead < m.ahead)) ∧
    ∀ acts, (∀ a ∈ acts, a.keepsRequests = true) → 11 ≤ (m.turns acts).length →
      ∃ t ∈ (m.turns acts).take 11, t.served = some .reset := by
  have hahead := h.nested.ahead_le hr
  refine ⟨?_, fun acts hacts hlength => ?_⟩
  · rcases h.nested.poll_of_reset hr with hp | hp
    · left
      rw [hp]
      exact ⟨rfl, rfl, rfl, rfl, rfl, Interrupt.Controller.isPending_empty⟩
    · exact .inr hp
  · rcases h.nested.nears_runActs hr hacts with ⟨t, ht, hserved⟩ | ⟨-, hfar⟩
    · have hle : m.ahead + 1 ≤ 11 := by omega
      exact ⟨t, List.take_subset_take_left _ hle ht, hserved⟩
    · -- more turns than there are places to come nearer by
      omega

/-- A low and a high source are in the queue when a reset is raised; the routine that held the low
one back returns. -/
def resetBehindQueue : Machine :=
  Machine.idling.runActs
    [.writeRam 0x108 0x80, .raise .int0, .poll, .raise .int2, .poll, .raise .p3, .poll,
      .raise .reset, .execute 0xB0]

/-- More requests, and the enable register cleared. -/
def requestsThenSteps : List Act :=
  [.raise .int1, .raise .int3, .writeRam 0x108 0] ++ List.replicate 11 .step

theorem reset_not_starved_behind_queue :
    resetBehindQueue.Awaits .reset ∧
    (∃ s, s ≠ .reset ∧ resetBehindQueue.poll.2 = some s ∧
      .reset ∈ resetBehindQueue.poll.1.cpu.queue ∧
      resetBehindQueue.poll.1.ahead < resetBehindQueue.ahead) ∧
    ∃ t ∈ (resetBehindQueue.turns requestsThenSteps).take 11, t.served = some .reset := by
  have hr : Reachable resetBehindQueue := Reachable.idling.runActs _
  have hawait : resetBehindQueue.Awaits .reset := by decide +kernel
  have hserved : resetBehindQueue.poll.2 ≠ some .reset := by decide +kernel
  obtain ⟨hpoll, hrun⟩ := reset_not_starved hr hawait
  exact ⟨hawait, hpoll.resolve_left fun hp => hserved hp.1,
    hrun requestsThenSteps (by decide +kernel) (by decide +kernel)⟩

end VisualMemory
