import VisualMemory.Proofs.Bits
import VisualMemory.Proofs.Interrupt.Nesting
import VisualMemory.Proofs.Timer.Sound

/-!
# The processor does not sleep through an interrupt

A poll passes over sources that wait in the queue already or are in service. Still it serves
something whenever something can be served, since a source in service is never above the level that
runs; and whatever is served wakes the processor, a reset by way of the registers that it clears.

* `Machine.CanTake`: the source waits, is let in, and is above the level.
* `Machine.Nested.poll_isSome_iff`: a poll serves a source if and only if there is such a one.
* `Machine.isHalted_serve`: a served source finds the processor awake.
* `no_lost_wake_up`: both, and what they say about the machine after a poll or a step.
-/

namespace VisualMemory

open Interrupt (Source Enable)

/-- The source waits for service, is let in by the enable register, and is above the level that
runs. -/
def Machine.CanTake (m : Machine) (s : Source) : Prop :=
  m.Awaits s ∧ (s = .reset ∨ (m.register Register.ie).bit 7 = true) ∧ m.cpu.level < s.level

theorem Interrupt.Enable.allows_iff {e : Enable} {s : Source} :
    e.allows s = true ↔ s = .reset ∨ e.byte.bit 7 = true := by
  rw [allows, master, Source.isMaskable, Bool.or_eq_true, Bool.not_eq_true',
    decide_eq_false_iff_not, Decidable.not_not]

namespace Machine

theorem canTake_iff {m : Machine} {s : Source} :
    m.CanTake s ↔ m.Awaits s ∧ m.canServe s = true := by
  rw [CanTake, canServe_iff, Enable.allows_iff]
  exact Iff.rfl

theorem canTake_accept {m : Machine} {s : Source} : m.accept.CanTake s ↔ m.CanTake s := by
  rw [CanTake, CanTake, awaits_accept]
  exact Iff.rfl

/-! ## Completeness -/

namespace Nested

variable {m : Machine}

theorem level_le_of_serving (h : m.Nested) {s : Source} (hs : m.isServing s = true) :
    ¬ m.cpu.level < s.level := by
  obtain ⟨r, hr, hrs⟩ := List.any_eq_true.mp hs
  have hlevel := h.rank_le hr
  rw [beq_iff_eq.mp hrs] at hlevel
  exact Nat.not_lt.mpr hlevel

theorem canTake_reset (h : m.Nested) (hr : m.Awaits .reset) : m.CanTake .reset := by
  have hlevel : m.cpu.level < Source.level .reset := by
    have hne := h.level_ne
    cases hl : m.cpu.level with
    | nonMaskable => exact absurd hl hne
    | _ => decide
  exact ⟨hr, .inl rfl, hlevel⟩

theorem mem_queue_of_canTake (h : m.Nested) {s : Source} (hs : m.CanTake s) :
    s ∈ m.accept.cpu.queue := by
  obtain ⟨hawait, hserve⟩ := canTake_iff.mp hs
  obtain ⟨hallow, hlevel⟩ := canServe_iff.mp hserve
  rw [mem_accept_queue]
  by_cases hq : s ∈ m.cpu.queue
  · exact .inl hq
  · have hidle : m.isServing s = false := by
      rw [Bool.eq_false_iff]
      exact fun hs' => h.level_le_of_serving hs' hlevel
    exact .inr (mem_acceptable.mpr ⟨hawait.resolve_right hq, hallow, hq, hidle⟩)

theorem poll_eq_some {s : Source} (h : m.poll.2 = some s) : m.CanTake s := by
  rcases poll_cases m with ⟨-, hp⟩ | ⟨t, hn, hp⟩
  · rw [hp] at h
    cases h
  · rw [hp] at h
    cases h
    obtain ⟨hq, hserve⟩ := next?_eq_some hn
    exact canTake_accept.mp (canTake_iff.mpr ⟨.inr hq, hserve⟩)

theorem poll_eq_none (h : m.Nested) (hp : m.poll.2 = none) (s : Source) : ¬ m.CanTake s := by
  intro hs
  have hnone : m.accept.next? = none := by
    rcases poll_cases m with ⟨hn, -⟩ | ⟨t, -, hp'⟩
    · exact hn
    · rw [hp'] at hp
      cases hp
  have hserve := next?_eq_none.mp hnone s (h.mem_queue_of_canTake hs)
  rw [(canTake_iff.mp (canTake_accept.mpr hs)).2] at hserve
  cases hserve

/-- A poll serves a source if and only if one can be taken. -/
theorem poll_isSome_iff (h : m.Nested) : m.poll.2.isSome = true ↔ ∃ s, m.CanTake s := by
  constructor
  · intro hs
    obtain ⟨s, hs⟩ := Option.isSome_iff_exists.mp hs
    exact ⟨s, poll_eq_some hs⟩
  · rintro ⟨s, hs⟩
    rw [Option.isSome_iff_ne_none]
    exact fun hp => h.poll_eq_none hp s hs

end Nested

/-! ## Wake-up -/

theorem register_pcon (m : Machine) :
    m.register Register.pcon = (m.ram.latches.get 7).getD (m.ram.cell (.register 7)) :=
  m.ram.read_register 7

theorem isHalted_reset (m : Machine) : m.reset.isHalted = false := by
  have hram : m.reset.ram =
      (m.ram.resetRegisters.setCell (.register 0x06) initialSp).setCell (.register 0x0D)
        m.initialBank.toByte := rfl
  have hcell : m.reset.ram.cell (.register 7) = 0 := by
    rw [hram, Ram.cell_setCell, if_neg (by decide), Ram.cell_setCell, if_neg (by decide)]
    exact Vector.getElem_replicate ..
  have hlatch : m.reset.ram.latches.get 7 = none := by
    rw [hram, Ram.latches_setCell, Ram.latches_setCell]
    exact Vector.getElem_replicate ..
  rw [isHalted, register_pcon, hlatch, hcell]
  decide

/-- Entering a service routine clears the halt bit, which no latch hides. -/
theorem isHalted_enter {m : Machine} (h : m.ram.OnlyCounters) (s : Source) :
    (m.enter s).isHalted = false := by
  let pushed := m.pushAddress m.cpu.pc
  have hram : (m.enter s).ram =
      pushed.ram.write (0x100 + (7 : Fin 128).val)
        ((pushed.register Register.pcon).setBit 0 false) := rfl
  have hlatch : pushed.ram.latches.get 7 = none := by
    have hkeeps := (Keeps.push m m.cpu.pc.lowByte).trans (Keeps.push _ m.cpu.pc.highByte)
    exact Ram.onlyCounters_of_latches h hkeeps.latches 7 (by decide)
  have hread := pushed.ram.read_write_register 7 ((pushed.register Register.pcon).setBit 0 false)
  rw [← hram, hlatch] at hread
  rw [isHalted]
  exact (congrArg (UInt8.bit · 0) hread).trans (UInt8.bit_setBit _ _ (by decide) (by decide))

theorem isHalted_serve {m : Machine} (h : m.ram.OnlyCounters) (s : Source) :
    (m.serve s).isHalted = false := by
  by_cases hr : s = .reset
  · rw [hr, serve_reset]
    exact isHalted_reset _
  · rw [serve_of_ne hr]
    exact isHalted_enter h s

theorem not_canTake_of_isHalted_poll {m : Machine} (hn : m.Nested) (hc : m.Clocked)
    (h : m.poll.1.isHalted = true) (s : Source) : ¬ m.poll.1.CanTake s := by
  rcases poll_cases m with ⟨-, hp⟩ | ⟨t, -, hp⟩
  · have hnone := hn.poll_eq_none (by rw [hp]) s
    rw [hp, canTake_accept]
    exact hnone
  · rw [hp, isHalted_serve (m := m.accept.dequeue t) hc.latches t] at h
    cases h

end Machine

/-- **The processor does not sleep through an interrupt.** A poll of a reachable machine serves a
source if and only if some source can be taken, and then serves such a one. So whenever the
processor is halted after a poll, or after a step, no source can be taken. -/
theorem no_lost_wake_up {m : Machine} (h : Reachable m) :
    (m.poll.2.isSome = true ↔ ∃ s, m.CanTake s) ∧
    (∀ s, m.poll.2 = some s → m.CanTake s) ∧
    (m.poll.1.isHalted = true → ∀ s, ¬ m.poll.1.CanTake s) ∧
    (m.step.1.isHalted = true → ∀ s, ¬ m.step.1.CanTake s) :=
  ⟨h.nested.poll_isSome_iff, fun _ => Machine.Nested.poll_eq_some,
    Machine.not_canTake_of_isHalted_poll h.nested h.clocked,
    Machine.not_canTake_of_isHalted_poll h.nested.advance h.clocked.advance⟩

/-- A halted processor in a low routine: a low source has to wait, and a high one wakes it. -/
def haltedInRoutine : Machine :=
  Machine.idling.runActs
    [.writeRam 0x108 0x80, .raise .int2, .poll, .writeRam 0x107 1, .raise .p3]

theorem no_lost_wake_up_in_routine :
    haltedInRoutine.poll.1.isHalted = true ∧ (∀ s, ¬ haltedInRoutine.poll.1.CanTake s) ∧
      ∃ s, ((Act.raise .int1).run haltedInRoutine).CanTake s := by
  have hr : Reachable haltedInRoutine := Reachable.idling.runActs _
  have hhalted : haltedInRoutine.poll.1.isHalted = true := by decide +kernel
  exact ⟨hhalted, (no_lost_wake_up hr).2.2.1 hhalted,
    (no_lost_wake_up (hr.act (.raise .int1))).1.mp (by decide +kernel)⟩

end VisualMemory
