import VisualMemory.Proofs.Interrupt.Nesting

/-!
# No request is lost and none is invented

A request moves from the controller to the queue, and from the queue into a service routine. Masks,
levels and further requests may change at any moment; still every request ends up in a service or
waits for one, unless a front end takes it back or the machine is reset.

* `Machine.owed`: how many services of a source the machine owes.
* `Machine.Carries`: the account of a stretch of execution, which adds up over stretches that follow
  each other: `Carries.trans`. One account for each part of a step: `carries_foldl_raise`,
  `carries_accept`, `carries_poll`; and from them for a step, an act and a run: `carries_step`,
  `Act.carries`, `carries_runActs`.
* `service_conservation`: what it says about the runs of a reachable machine.
-/

namespace VisualMemory

open Interrupt (Source Controller)

/-- Acts that neither take requests back nor start over. -/
def Act.keepsRequests : Act → Bool
  | reset | directBoot _ | lower _ | lowerAll | restore _ => false
  | _ => true

namespace Machine

/-- How often the source is in the queue: once or not at all. -/
def queued (m : Machine) (s : Source) : Nat :=
  if s ∈ m.cpu.queue then 1 else 0

/-- How many services of the source the machine owes: one if it is in the queue, and one if it is
pending in the controller. -/
def owed (m : Machine) (s : Source) : Nat :=
  m.queued s + if m.interrupts.isPending s then 1 else 0

theorem awaits_iff_owed_pos {m : Machine} {s : Source} : m.Awaits s ↔ 0 < m.owed s := by
  rw [Awaits, owed, queued]
  by_cases hq : s ∈ m.cpu.queue <;> by_cases hp : m.interrupts.isPending s = true <;>
    simp [hq, hp]

theorem queued_le_owed (m : Machine) (s : Source) : m.queued s ≤ m.owed s :=
  Nat.le_add_right _ _

theorem owed_of_pending {m : Machine} {s : Source} (h : m.interrupts.isPending s = true) :
    m.owed s = m.queued s + 1 := by
  rw [owed, if_pos h]

/-! ## Accounts -/

/-- The account of a source from `m` to `n`, with so many services and requests between them. -/
structure Carries (s : Source) (served raised : Nat) (m n : Machine) : Prop where
  /-- No service that was owed is lost. -/
  kept : m.owed s ≤ n.owed s + served
  /-- Every service that is owed or was given was asked for. -/
  asked : n.owed s + served ≤ m.owed s + raised
  /-- The queue is left for a service only. -/
  waits : m.queued s ≤ n.queued s + served
  /-- A request counts even where the source is in the queue already. -/
  counts : 0 < raised → m.queued s + 1 ≤ n.owed s + served

namespace Carries

variable {s : Source} {d d' r r' : Nat} {m n k : Machine}

theorem trans (h : Carries s d r m n) (h' : Carries s d' r' n k) :
    Carries s (d + d') (r + r') m k where
  kept := by
    have h1 := h.kept
    have h2 := h'.kept
    omega
  asked := by
    have h1 := h.asked
    have h2 := h'.asked
    omega
  waits := by
    have h1 := h.waits
    have h2 := h'.waits
    omega
  counts := by
    intro hpos
    by_cases hr : 0 < r
    · have h1 := h.counts hr
      have h2 := h'.kept
      omega
    · have h1 := h.waits
      have h2 := h'.counts (by omega)
      omega

theorem of_eq (hq : n.cpu.queue = m.cpu.queue) (hi : n.interrupts = m.interrupts) :
    Carries s 0 0 m n := by
  have hqueued : n.queued s = m.queued s := by rw [queued, queued, hq]
  have howed : n.owed s = m.owed s := by rw [owed, owed, hqueued, hi]
  exact ⟨by omega, by omega, by omega, fun h => absurd h (by decide)⟩

theorem awaits (h : Carries s 0 r m n) (hm : m.Awaits s) : n.Awaits s :=
  awaits_iff_owed_pos.mpr (Nat.lt_of_lt_of_le (awaits_iff_owed_pos.mp hm) h.kept)

end Carries

/-! ## Requests -/

theorem carries_foldl_raise {m n : Machine} {l : List Source} (s : Source)
    (hq : n.cpu.queue = m.cpu.queue) (hi : n.interrupts = l.foldl (·.raise ·) m.interrupts) :
    Carries s 0 (l.count s) m n := by
  have hqueued : n.queued s = m.queued s := by rw [queued, queued, hq]
  have hpending : n.interrupts.isPending s = true ↔ m.interrupts.isPending s = true ∨ s ∈ l := by
    rw [hi]
    exact Controller.isPending_foldl_raise ..
  by_cases hmem : s ∈ l
  · have hpos : 0 < l.count s := List.count_pos_iff.mpr hmem
    have hn : n.owed s = m.queued s + 1 := by
      rw [owed_of_pending (hpending.mpr (.inr hmem)), hqueued]
    have hm : m.owed s ≤ m.queued s + 1 := by
      rw [owed]
      split <;> omega
    have hle := queued_le_owed m s
    exact ⟨by omega, by omega, by omega, fun _ => by omega⟩
  · have hzero : l.count s = 0 := List.count_eq_zero.mpr hmem
    have hsame : n.interrupts.isPending s = m.interrupts.isPending s := by
      rw [Bool.eq_iff_iff, hpending]
      exact ⟨fun h => h.resolve_right hmem, .inl⟩
    have howed : n.owed s = m.owed s := by rw [owed, owed, hqueued, hsame]
    exact ⟨by omega, by omega, by omega, fun h => by omega⟩

theorem carries_stepTimer0 (m : Machine) (s : Source) :
    Carries s 0 ((m.timer0.stepRaised m.ram).count s) m m.stepTimer0 :=
  carries_foldl_raise s (congrArg Cpu.queue (passes_takeTimer0 m _).cpu)
    ((takeTimer0_interrupts m _).trans (Timer.step_interrupts ..))

theorem carries_stepTimer1 (m : Machine) (s : Source) :
    Carries s 0 ((m.timer1.stepRaised m.ram).count s) m m.stepTimer1 :=
  carries_foldl_raise s (congrArg Cpu.queue (passes_takeTimer1 m _).cpu)
    ((takeTimer1_interrupts m _).trans (Timer.step_interrupts ..))

theorem carries_tickTimer0 (m : Machine) (s : Source) :
    Carries s 0 ((m.timer0.tickRaised m.ram).count s) m m.tickTimer0 :=
  carries_foldl_raise s (congrArg Cpu.queue (passes_takeTimer0 m _).cpu)
    ((takeTimer0_interrupts m _).trans (Timer.tick_interrupts ..))

theorem carries_tickTimer1 (m : Machine) (s : Source) :
    Carries s 0 ((m.timer1.tickRaised m.ram).count s) m m.tickTimer1 :=
  carries_foldl_raise s (congrArg Cpu.queue (passes_takeTimer1 m _).cpu)
    ((takeTimer1_interrupts m _).trans (Timer.tick_interrupts ..))

theorem carries_elapse (m : Machine) (cycles : Nat) (s : Source) :
    Carries s 0 ((m.elapseRaised cycles).count s) m (m.elapse cycles) := by
  induction cycles generalizing m with
  | zero => exact .of_eq rfl rfl
  | succ cycles ih =>
    rw [elapseRaised, cycleRaised, List.count_append, List.count_append]
    exact ((carries_stepTimer0 m s).trans (carries_stepTimer1 _ s)).trans (ih _)

/-! ## Services -/

theorem carries_accept (m : Machine) (s : Source) : Carries s 0 0 m m.accept := by
  have hqueue := mem_accept_queue (m := m) (s := s)
  have hpending := isPending_accept (m := m) (s := s)
  by_cases ha : s ∈ m.acceptable
  · obtain ⟨hp, -, hnot, -⟩ := mem_acceptable.mp ha
    have hq : s ∈ m.accept.cpu.queue := hqueue.mpr (.inr ha)
    have hp' : ¬ m.accept.interrupts.isPending s = true := fun h => (hpending.mp h).2 ha
    have hm : m.queued s = 0 := if_neg hnot
    have hn : m.accept.queued s = 1 := if_pos hq
    have hmo : m.owed s = 1 := by rw [owed_of_pending hp, hm]
    have hno : m.accept.owed s = 1 := by rw [owed, hn, if_neg hp']
    exact ⟨by omega, by omega, by omega, fun h => absurd h (by decide)⟩
  · have hq : s ∈ m.accept.cpu.queue ↔ s ∈ m.cpu.queue := by
      rw [hqueue]
      exact ⟨fun h => h.resolve_right ha, .inl⟩
    have hp : m.accept.interrupts.isPending s = m.interrupts.isPending s := by
      rw [Bool.eq_iff_iff, hpending]
      exact ⟨fun h => h.1, fun h => ⟨h, ha⟩⟩
    have hqueued : m.accept.queued s = m.queued s := by simp only [queued, hq]
    have howed : m.accept.owed s = m.owed s := by rw [owed, owed, hqueued, hp]
    exact ⟨by omega, by omega, by omega, fun h => absurd h (by decide)⟩

/-- The source that is served leaves the queue, in which it was once. -/
theorem carries_dequeue {m : Machine} (hm : m.cpu.queue.Nodup) {t : Source} (ht : t ∈ m.cpu.queue)
    (s : Source) : Carries s ([t].count s) 0 m (m.dequeue t) := by
  have hmem : s ∈ (m.dequeue t).cpu.queue ↔ s ≠ t ∧ s ∈ m.cpu.queue := hm.mem_erase_iff
  have hsame : (m.dequeue t).owed s + m.queued s = m.owed s + (m.dequeue t).queued s := by
    have hi : (m.dequeue t).interrupts = m.interrupts := rfl
    rw [owed, owed, hi]
    omega
  by_cases hst : s = t
  · have hone : [t].count s = 1 := by rw [hst]; exact List.count_singleton_self ..
    have hq : m.queued s = 1 := if_pos (hst ▸ ht)
    have hq' : (m.dequeue t).queued s = 0 := if_neg fun h => (hmem.mp h).1 hst
    exact ⟨by omega, by omega, by omega, fun h => absurd h (by decide)⟩
  · have hzero : [t].count s = 0 := List.count_eq_zero.mpr (by simpa using hst)
    have hq : (m.dequeue t).queued s = m.queued s := by simp only [queued, hmem, hst, ne_eq,
      not_false_eq_true, true_and]
    exact ⟨by omega, by omega, by omega, fun h => absurd h (by decide)⟩

theorem carries_poll {m : Machine} (h : m.Nested) (hr : .reset ∉ m.poll.2.toList) (s : Source) :
    Carries s (m.poll.2.toList.count s) 0 m m.poll.1 := by
  rcases poll_cases m with ⟨-, hp⟩ | ⟨t, hn, hp⟩
  · rw [hp]
    exact carries_accept m s
  · rw [hp] at hr ⊢
    have hne : t ≠ .reset := fun ht => hr (by simp [ht])
    have hout := carries_dequeue h.accept.queued_once (next?_eq_some hn).1 s
    have hin : Carries s 0 0 (m.accept.dequeue t) ((m.accept.dequeue t).serve t) := by
      rw [serve_of_ne hne]
      exact .of_eq (enter_queue ..) (enter_interrupts ..)
    have htotal := ((carries_accept m s).trans hout).trans hin
    rwa [Nat.zero_add, Nat.add_zero] at htotal

/-! ## Steps -/

theorem carries_processInstruction (m : Machine) (noted : Bool) (s : Source) :
    Carries s 0 0 m (m.processInstruction noted).1 :=
  have h := (runs_processInstruction m noted).outside
  .of_eq h.queue h.interrupts

theorem carries_advance (m : Machine) (s : Source) :
    Carries s 0 (m.stepRaised.count s) m m.advance.1 := by
  have htime : Carries s 0 (m.stepRaised.count s) (m.processInstruction m.debug).1 m.advance.1 :=
    carries_elapse ..
  have htotal := (carries_processInstruction m m.debug s).trans htime
  rwa [Nat.zero_add, Nat.zero_add] at htotal

theorem carries_step {m : Machine} (h : m.Nested) (hr : .reset ∉ m.stepServed.toList)
    (s : Source) : Carries s (m.stepServed.toList.count s) (m.stepRaised.count s) m m.step.1 := by
  have htotal := (carries_advance m s).trans (carries_poll h.advance hr s)
  rwa [Nat.zero_add, Nat.add_zero] at htotal

theorem carries_runSteps {m : Machine} (h : m.Nested) {steps : Nat}
    (hr : .reset ∉ m.gather (·.stepServed.toList) steps) (s : Source) (elapsed : Nat) :
    Carries s ((m.gather (·.stepServed.toList) steps).count s)
      ((m.gather stepRaised steps).count s) m (m.runSteps elapsed steps).1 := by
  induction steps generalizing m elapsed with
  | zero => exact .of_eq rfl rfl
  | succ steps ih =>
    rw [gather, List.mem_append, not_or] at hr
    rw [gather, gather, List.count_append, List.count_append]
    exact (carries_step h hr.1 s).trans (ih h.step hr.2 _)

end Machine

/-! ## Acts -/

open Machine in
theorem Act.carries {m : Machine} (h : m.Nested) {a : Act} (ha : a.keepsRequests = true)
    (hr : .reset ∉ a.served m) (s : Source) :
    Carries s ((a.served m).count s) ((a.raised m).count s) m (a.run m) := by
  cases a with
  | step => exact carries_step h hr s
  | runFor cycles =>
    have hrun := carries_runSteps h hr s 0
    rwa [← runOn_eq_runSteps] at hrun
  | instruction noted => exact carries_processInstruction m noted s
  | execute raw =>
    have ho := (runs_execute m raw).outside
    exact .of_eq ho.queue ho.interrupts
  | poll => exact carries_poll h hr s
  | stepTimer0 => exact carries_stepTimer0 m s
  | stepTimer1 => exact carries_stepTimer1 m s
  | tickTimer0 => exact carries_tickTimer0 m s
  | tickTimer1 => exact carries_tickTimer1 m s
  | raise t => exact carries_foldl_raise s rfl rfl
  | writeProgram address value =>
    rw [run, writeProgram_eq]
    exact .of_eq rfl rfl
  | reset | directBoot | lower | lowerAll | restore => cases ha
  | _ => exact .of_eq rfl rfl

namespace Machine

theorem served_append (m : Machine) (before after : List Act) :
    m.served (before ++ after) = m.served before ++ (m.runActs before).served after := by
  induction before generalizing m with
  | nil => rfl
  | cons a before ih => rw [List.cons_append, served, served, ih, List.append_assoc]; rfl

theorem carries_runActs {m : Machine} (h : m.Nested) {acts : List Act}
    (ha : ∀ a ∈ acts, a.keepsRequests = true) (hr : .reset ∉ m.served acts) (s : Source) :
    Carries s ((m.served acts).count s) ((m.raised acts).count s) m (m.runActs acts) := by
  induction acts generalizing m with
  | nil => exact .of_eq rfl rfl
  | cons a acts ih =>
    rw [served, List.mem_append, not_or] at hr
    rw [served, raised, List.count_append, List.count_append]
    exact (Act.carries h (ha a (List.mem_cons_self ..)) hr.1 s).trans
      (ih (h.act a) (fun b hb => ha b (List.mem_cons_of_mem _ hb)) hr.2)

end Machine

/-- **No request is lost and none is invented.** Take any run of a reachable machine in which no
request is taken back and nothing is reset. A source that waits before an act waits after it, unless
the act serves it. A source that does not wait at the start has at no time had or been owed more
services than were asked for. And a request that an act of the run makes counts for one service more
than the queue holds, whether the source waits there, is in service, or neither. -/
theorem service_conservation {m : Machine} (h : Reachable m) {acts : List Act}
    (ha : ∀ a ∈ acts, a.keepsRequests = true) (hr : .reset ∉ m.served acts) (s : Source) :
    (∀ before a after, acts = before ++ a :: after → (m.runActs before).Awaits s →
      s ∉ a.served (m.runActs before) → (m.runActs (before ++ [a])).Awaits s) ∧
    (¬ m.Awaits s → ∀ before after, acts = before ++ after →
      (m.served before).count s + (m.runActs before).owed s ≤ (m.raised before).count s) ∧
    (∀ before a after, acts = before ++ a :: after → s ∈ a.raised (m.runActs before) →
      (m.runActs before).queued s + 1 ≤
        ((m.runActs before).served (a :: after)).count s + (m.runActs acts).owed s) := by
  refine ⟨?_, ?_, ?_⟩
  · rintro before a after rfl hawait hnot
    have hn := (h.runActs before).nested
    rw [Machine.served_append, Machine.served, List.mem_append, List.mem_append, not_or,
      not_or] at hr
    have hact := (Act.carries hn (ha a (by simp)) hr.2.1 s).kept
    rw [List.count_eq_zero.mpr hnot] at hact
    rw [Machine.runActs_append, Machine.awaits_iff_owed_pos]
    exact Nat.lt_of_lt_of_le (Machine.awaits_iff_owed_pos.mp hawait) hact
  · rintro hidle before after rfl
    rw [Machine.served_append, List.mem_append, not_or] at hr
    have hrun := (Machine.carries_runActs h.nested
      (fun a hmem => ha a (List.mem_append_left _ hmem)) hr.1 s).asked
    have hzero : ¬ 0 < m.owed s := fun hpos => hidle (Machine.awaits_iff_owed_pos.mpr hpos)
    omega
  · rintro before a after rfl hmem
    rw [Machine.served_append, List.mem_append, not_or] at hr
    have hrun := (Machine.carries_runActs (h.runActs before).nested
      (fun b hb => ha b (List.mem_append_right _ hb)) hr.2 s).counts
    have hpos : 0 < ((m.runActs before).raised (a :: after)).count s := by
      rw [Machine.raised, List.count_append]
      have := List.count_pos_iff.mpr hmem
      omega
    have hcount := hrun hpos
    rw [Machine.runActs_append]
    omega

/-- A source that is asked for again while it is in service, and served again after its return. -/
def askedInService : List Act :=
  [.writeRam 0x108 0x80, .raise .int2, .poll, .raise .int2, .step, .execute 0xB0, .poll]

theorem service_conservation_in_service :
    let m := Machine.idling
    m.served askedInService = [.int2, .int2] ∧ m.raised askedInService = [.int2, .int2] ∧
      ¬ m.Awaits .int2 ∧
      (m.served askedInService).count .int2 + (m.runActs askedInService).owed .int2 ≤
        (m.raised askedInService).count .int2 := by
  intro m
  have hr : Reachable m := .idling
  have hserved : m.served askedInService = [.int2, .int2] := by decide +kernel
  have hidle : ¬ m.Awaits .int2 := by decide +kernel
  have ha : ∀ a ∈ askedInService, a.keepsRequests = true := by decide
  have h := service_conservation hr ha (by rw [hserved]; decide) .int2
  exact ⟨hserved, by decide +kernel, hidle, h.2.1 hidle askedInService [] rfl⟩

end VisualMemory
