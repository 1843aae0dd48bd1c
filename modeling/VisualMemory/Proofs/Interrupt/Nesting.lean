import VisualMemory.Proofs.Act
import VisualMemory.Proofs.Interrupt.Poll

/-!
# Service routines nest by level

A routine is interrupted only by a source of a higher level, and a return goes back to the level
that was interrupted. So whatever a front end and the program do, the routines in progress have
strictly rising levels from the outermost to the innermost, the processor's level is that of the
innermost, and nothing waits twice or waits while it is served.

* `Machine.Nested`: this state of affairs. `Nested.act`: every act keeps it. `Reachable.nested`.
* `service_nesting`: what it says about a reachable machine, in full.
-/

namespace VisualMemory

open Interrupt (Source Service Level)

/-! ## Levels -/

namespace Interrupt

theorem Level.rank_le (l : Level) : l.rank ≤ 3 := by
  cases l <;> decide

theorem Source.rank_level_pos (s : Source) : 0 < s.level.rank := by
  cases s <;> decide

theorem Source.rank_level_lt {s : Source} (h : s ≠ .reset) : s.level.rank < 3 := by
  cases s with
  | reset => exact absurd rfl h
  | _ => decide

namespace Service

/-- The level at which the innermost of these routines runs. -/
def levelOf : List Service → Level
  | [] => .idle
  | r :: _ => r.source.level

/-- Each routine remembers the level of the one that it interrupted. -/
def Chained : List Service → Prop
  | [] => True
  | r :: outer => r.previousLevel = levelOf outer ∧ Chained outer

end Service

end Interrupt

open Interrupt.Service (levelOf Chained)

/-! ## The invariant -/

/-- Service routines are nested by level. -/
structure Machine.Nested (m : Machine) : Prop where
  rising : m.cpu.services.Pairwise fun inner outer => outer.source.level < inner.source.level
  maskable : ∀ r ∈ m.cpu.services, r.source ≠ .reset
  chained : Chained m.cpu.services
  level : m.cpu.level = levelOf m.cpu.services
  queued_once : m.cpu.queue.Nodup
  queued_idle : ∀ s ∈ m.cpu.queue, m.isServing s = false

namespace Machine

theorem nested_of_idle {m : Machine} (hs : m.cpu.services = []) (hl : m.cpu.level = .idle)
    (hq : m.cpu.queue = []) : m.Nested where
  rising := by rw [hs]; exact .nil
  maskable := by rw [hs]; intro r hr; cases hr
  chained := by rw [hs]; trivial
  level := by rw [hs, hl]; rfl
  queued_once := by rw [hq]; exact .nil
  queued_idle := by rw [hq]; intro s hs'; cases hs'

theorem nested_reset (m : Machine) : m.reset.Nested :=
  nested_of_idle rfl rfl rfl

namespace Nested

variable {m n : Machine}

theorem of_eq (h : m.Nested) (hs : n.cpu.services = m.cpu.services)
    (hl : n.cpu.level = m.cpu.level) (hq : n.cpu.queue = m.cpu.queue) : n.Nested where
  rising := hs ▸ h.rising
  maskable := hs ▸ h.maskable
  chained := hs ▸ h.chained
  level := by rw [hl, hs]; exact h.level
  queued_once := hq ▸ h.queued_once
  queued_idle := by
    intro s hs'
    rw [isServing, hs]
    exact h.queued_idle s (hq ▸ hs')

theorem of_cpu_eq (h : m.Nested) (hc : n.cpu = m.cpu) : n.Nested :=
  h.of_eq (by rw [hc]) (by rw [hc]) (by rw [hc])

theorem levelBelow_eq (h : m.Nested) :
    levelBelow m.cpu.services = levelOf m.cpu.services.tail := by
  have hc := h.chained
  cases hs : m.cpu.services with
  | nil => rfl
  | cons r outer =>
    rw [hs] at hc
    exact hc.1

theorem leaves (h : m.Nested) (h' : Leaves m n) : n.Nested where
  rising := by rw [h'.services]; exact h.rising.sublist (List.tail_sublist _)
  maskable := by
    intro r hr
    rw [h'.services] at hr
    exact h.maskable r (List.mem_of_mem_tail hr)
  chained := by
    have hc := h.chained
    rw [h'.services]
    cases hs : m.cpu.services with
    | nil => trivial
    | cons r outer =>
      rw [hs] at hc
      exact hc.2
  level := by rw [h'.level, h'.services, h.levelBelow_eq]
  queued_once := by rw [h'.queue]; exact h.queued_once
  queued_idle := by
    intro s hs
    rw [h'.queue] at hs
    have hidle := isServing_eq_false.mp (h.queued_idle s hs)
    rw [isServing_eq_false, h'.services]
    intro r hr
    exact hidle r (List.mem_of_mem_tail hr)

theorem runs (h : m.Nested) (h' : Runs m n) : n.Nested := by
  rcases h' with h' | h'
  · exact h.of_eq h'.services h'.level h'.queue
  · exact h.leaves h'

theorem elapse (h : m.Nested) (cycles : Nat) : (m.elapse cycles).Nested :=
  h.of_cpu_eq (passes_elapse m cycles).cpu

theorem rank_le (h : m.Nested) {r : Service} (hr : r ∈ m.cpu.services) :
    r.source.level.rank ≤ m.cpu.level.rank := by
  have hrising := h.rising
  rw [h.level]
  cases hs : m.cpu.services with
  | nil => rw [hs] at hr; cases hr
  | cons top outer =>
    rw [hs] at hr hrising
    rcases List.mem_cons.mp hr with rfl | hr
    · exact Nat.le_refl _
    · exact Nat.le_of_lt ((List.pairwise_cons.mp hrising).1 r hr)

/-! ## Polls -/

theorem accept (h : m.Nested) : m.accept.Nested where
  rising := h.rising
  maskable := h.maskable
  chained := h.chained
  level := h.level
  queued_once := by
    have hdisjoint : ∀ s ∈ m.cpu.queue, ∀ t ∈ m.acceptable, s ≠ t := by
      rintro s hs t ht rfl
      exact (mem_acceptable.mp ht).2.2.1 hs
    exact List.nodup_append.mpr ⟨h.queued_once, nodup_acceptable m, hdisjoint⟩
  queued_idle := by
    intro s hs
    rcases mem_accept_queue.mp hs with hs | hs
    · exact h.queued_idle s hs
    · exact (mem_acceptable.mp hs).2.2.2

/-- Only a source above the level, and so above all routines in progress, is entered. -/
theorem enter (h : m.Nested) {s : Source} (hl : m.cpu.level < s.level) (hr : s ≠ .reset) :
    ((m.dequeue s).enter s).Nested where
  rising := by
    rw [enter_services]
    refine List.pairwise_cons.mpr ⟨?_, h.rising⟩
    intro r hmem
    exact Nat.lt_of_le_of_lt (h.rank_le hmem) hl
  maskable := by
    intro r hmem
    rw [enter_services] at hmem
    rcases List.mem_cons.mp hmem with rfl | hmem
    · exact hr
    · exact h.maskable r hmem
  chained := by
    rw [enter_services]
    exact ⟨h.level, h.chained⟩
  level := by rw [enter_level, enter_services]; rfl
  queued_once := by
    rw [enter_queue]
    exact h.queued_once.erase s
  queued_idle := by
    intro t ht
    rw [enter_queue] at ht
    obtain ⟨hne, hmem⟩ := (List.Nodup.mem_erase_iff h.queued_once).mp ht
    have hidle := isServing_eq_false.mp (h.queued_idle t hmem)
    rw [isServing_eq_false, enter_services]
    intro r hr'
    rcases List.mem_cons.mp hr' with rfl | hr'
    · exact fun heq => hne heq.symm
    · exact hidle r hr'

theorem poll (h : m.Nested) : m.poll.1.Nested := by
  rcases poll_cases m with ⟨-, hp⟩ | ⟨s, hn, hp⟩
  · rw [hp]
    exact h.accept
  · rw [hp]
    have hserve := (next?_eq_some hn).2
    by_cases hr : s = .reset
    · rw [hr, serve_reset]
      exact nested_reset _
    · rw [serve_of_ne hr]
      exact h.accept.enter (canServe_iff.mp hserve).2 hr

/-! ## Acts -/

theorem advance (h : m.Nested) : m.advance.1.Nested :=
  (h.runs (runs_processInstruction ..)).elapse _

theorem step (h : m.Nested) : m.step.1.Nested :=
  h.advance.poll

theorem act (h : m.Nested) (a : Act) : (a.run m).Nested := by
  cases a with
  | step => exact h.step
  | runFor cycles => exact runOn_keeps (fun _ h => Nested.step h) h 0 cycles.toNat
  | instruction noted => exact h.runs (runs_processInstruction m noted)
  | execute raw => exact h.runs (runs_execute m raw)
  | poll => exact h.poll
  | stepTimer0 => exact h.of_cpu_eq (passes_takeTimer0 m _).cpu
  | stepTimer1 => exact h.of_cpu_eq (passes_takeTimer1 m _).cpu
  | tickTimer0 => exact h.of_cpu_eq (passes_takeTimer0 m _).cpu
  | tickTimer1 => exact h.of_cpu_eq (passes_takeTimer1 m _).cpu
  | reset => exact nested_reset m
  | directBoot entry => exact (nested_reset m).of_eq rfl rfl rfl
  | writeProgram address value =>
    rw [Act.run, writeProgram_eq]
    exact h.of_eq rfl rfl rfl
  | _ => exact h.of_eq rfl rfl rfl

end Nested

end Machine

theorem Reachable.nested {m : Machine} (h : Reachable m) : m.Nested :=
  h.of_act (fun _ _ _ _ => Machine.nested_reset _) (fun _ a h => h.act a)

theorem Machine.Nested.length_le {m : Machine} (h : m.Nested) : m.cpu.services.length ≤ 2 := by
  have hrising := h.rising
  have hmask := h.maskable
  match hs : m.cpu.services with
  | [] => exact Nat.zero_le _
  | [_] => exact Nat.le_succ _
  | [_, _] => exact Nat.le_refl _
  | r :: r' :: r'' :: outer =>
    rw [hs] at hrising hmask
    obtain ⟨h1, h2⟩ := List.pairwise_cons.mp hrising
    obtain ⟨h3, -⟩ := List.pairwise_cons.mp h2
    have hr : r.source.level.rank < 3 :=
      Interrupt.Source.rank_level_lt (hmask r (List.mem_cons_self ..))
    have hr' : r'.source.level.rank < r.source.level.rank := h1 r' (List.mem_cons_self ..)
    have hr'' : r''.source.level.rank < r'.source.level.rank := h3 r'' (List.mem_cons_self ..)
    have hpos := r''.source.rank_level_pos
    omega

theorem Machine.Nested.sources_nodup {m : Machine} (h : m.Nested) :
    (m.cpu.services.map (·.source)).Nodup := by
  refine List.pairwise_map.mpr (h.rising.imp ?_)
  intro inner outer hlt heq
  rw [heq] at hlt
  exact Nat.lt_irrefl _ hlt

theorem Machine.Nested.level_ne {m : Machine} (h : m.Nested) : m.cpu.level ≠ .nonMaskable := by
  have hmask := h.maskable
  rw [h.level]
  cases hs : m.cpu.services with
  | nil => intro hn; cases hn
  | cons r outer =>
    rw [hs] at hmask
    have hr := Interrupt.Source.rank_level_lt (hmask r (List.mem_cons_self ..))
    intro hn
    change r.source.level = .nonMaskable at hn
    rw [hn] at hr
    exact absurd hr (by decide)

/-- **Service routines nest by level.** In every reachable machine the routines in progress have
strictly rising levels from the outermost to the innermost, so they are two at most, of different
sources, and none is a reset; each remembers the level of the one below it, and the processor's
level is that of the innermost; and the queue holds no source twice and none that is served. -/
theorem service_nesting {m : Machine} (h : Reachable m) :
    (m.cpu.services.Pairwise fun inner outer => outer.source.level < inner.source.level) ∧
    m.cpu.services.length ≤ 2 ∧
    (∀ r ∈ m.cpu.services, r.source ≠ .reset) ∧
    (m.cpu.services.map (·.source)).Nodup ∧
    Chained m.cpu.services ∧
    m.cpu.level = levelOf m.cpu.services ∧
    m.cpu.level ≠ .nonMaskable ∧
    m.cpu.queue.Nodup ∧
    ∀ s ∈ m.cpu.queue, ∀ r ∈ m.cpu.services, r.source ≠ s := by
  have hn := h.nested
  refine ⟨hn.rising, hn.length_le, hn.maskable, hn.sources_nodup, hn.chained, hn.level,
    hn.level_ne, hn.queued_once, ?_⟩
  intro s hs
  exact Machine.isServing_eq_false.mp (hn.queued_idle s hs)

/-- A low routine, a high one inside of it, and a third source that waits. -/
def nestedTwice : Machine :=
  Machine.idling.runActs
    [.writeRam 0x108 0x80, .raise .int2, .raise .p3, .poll, .raise .int0, .poll]

theorem service_nesting_two_deep :
    nestedTwice.cpu.services.map (·.source) = [.int0, .int2] ∧ nestedTwice.cpu.queue = [.p3] ∧
      nestedTwice.cpu.services.length ≤ 2 ∧ Chained nestedTwice.cpu.services :=
  have hr : Reachable nestedTwice := Reachable.idling.runActs _
  ⟨by decide +kernel, by decide +kernel, (service_nesting hr).2.1, (service_nesting hr).2.2.2.2.1⟩

end VisualMemory
