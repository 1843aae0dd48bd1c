import VisualMemory.Machine.Service
import VisualMemory.Proofs.Frame
import VisualMemory.Proofs.Interrupt.Controller

/-!
# What a poll does

* `Machine.Awaits`: the source waits for service, in the controller or in the queue.
* `mem_acceptable`, `mem_accept_queue`, `awaits_accept`: the first half of a poll only moves sources
  from the controller to the queue.
* `next?_eq_some`, `poll_of_none`, `poll_of_some`: the second half serves at most one, which leaves
  the queue.
* `poll_fst`, `poll_fst_of_snd`, `poll_fst_of_ne`: the machine after a poll, by what was served.
-/

namespace VisualMemory.Machine

open Interrupt (Source Service)

/-- The source waits for service: the controller holds its request, or the queue does. -/
def Awaits (m : Machine) (s : Source) : Prop :=
  m.interrupts.isPending s = true ∨ s ∈ m.cpu.queue

instance (m : Machine) (s : Source) : Decidable (m.Awaits s) :=
  inferInstanceAs (Decidable (_ ∨ _))

/-! ## Acceptance -/

theorem isServing_eq_false {m : Machine} {s : Source} :
    m.isServing s = false ↔ ∀ r ∈ m.cpu.services, r.source ≠ s := by
  rw [isServing, List.any_eq_false]
  simp only [beq_iff_eq, ne_eq]

theorem mem_acceptable {m : Machine} {s : Source} :
    s ∈ m.acceptable ↔ m.interrupts.isPending s = true ∧ m.enable.allows s = true ∧
      s ∉ m.cpu.queue ∧ m.isServing s = false := by
  rw [acceptable, List.mem_filter, Interrupt.Controller.mem_pending]
  simp only [Bool.and_eq_true, Bool.not_eq_true', List.contains_eq_mem, decide_eq_false_iff_not,
    and_assoc]

theorem nodup_acceptable (m : Machine) : m.acceptable.Nodup :=
  m.interrupts.nodup_pending.filter _

theorem mem_accept_queue {m : Machine} {s : Source} :
    s ∈ m.accept.cpu.queue ↔ s ∈ m.cpu.queue ∨ s ∈ m.acceptable :=
  List.mem_append

theorem isPending_accept {m : Machine} {s : Source} :
    m.accept.interrupts.isPending s = true ↔
      m.interrupts.isPending s = true ∧ s ∉ m.acceptable :=
  Interrupt.Controller.isPending_foldl_lower ..

theorem awaits_accept {m : Machine} {s : Source} : m.accept.Awaits s ↔ m.Awaits s := by
  rw [Awaits, Awaits, isPending_accept, mem_accept_queue]
  constructor
  · rintro (⟨h, -⟩ | h | h)
    · exact .inl h
    · exact .inr h
    · exact .inl (mem_acceptable.mp h).1
  · rintro (h | h)
    · by_cases ha : s ∈ m.acceptable
      · exact .inr (.inr ha)
      · exact .inl ⟨h, ha⟩
    · exact .inr (.inl h)

theorem accept_of_nil {m : Machine} (h : m.acceptable = []) : m.accept = m := by
  rw [accept, h, List.append_nil]
  rfl

/-! ## Choice -/

theorem eraseP_eq_erase {p : Source → Bool} {s : Source} {l : List Source}
    (h : l.find? p = some s) : l.eraseP p = l.erase s := by
  induction l with
  | nil => cases h
  | cons t l ih =>
    by_cases ht : p t = true
    · rw [List.find?_cons_of_pos ht] at h
      cases h
      rw [List.eraseP_cons_of_pos ht, List.erase_cons_head]
    · have hne : t ≠ s := by
        rintro rfl
        rw [List.find?_cons_of_neg ht] at h
        exact ht (List.find?_some h)
      rw [List.find?_cons_of_neg ht] at h
      rw [List.eraseP_cons_of_neg ht, ih h, List.erase_cons_tail (by simpa using hne)]

theorem canServe_iff {m : Machine} {s : Source} :
    m.canServe s = true ↔ m.enable.allows s = true ∧ m.cpu.level < s.level := by
  rw [canServe, Bool.and_eq_true, decide_eq_true_iff]

theorem next?_eq_some {m : Machine} {s : Source} (h : m.next? = some s) :
    s ∈ m.cpu.queue ∧ m.canServe s = true :=
  ⟨List.mem_of_find?_eq_some h, List.find?_some h⟩

theorem next?_eq_none {m : Machine} :
    m.next? = none ↔ ∀ s ∈ m.cpu.queue, m.canServe s = false := by
  rw [next?, List.find?_eq_none]
  simp only [Bool.not_eq_true]

def dequeue (m : Machine) (s : Source) : Machine :=
  { m with cpu := { m.cpu with queue := m.cpu.queue.erase s } }

theorem poll_of_none {m : Machine} (h : m.accept.next? = none) : m.poll = (m.accept, none) := by
  simp only [poll, h]

theorem poll_of_some {m : Machine} {s : Source} (h : m.accept.next? = some s) :
    m.poll = ((m.accept.dequeue s).serve s, some s) := by
  simp only [poll, h, dequeue, eraseP_eq_erase h]

/-- A poll accepts, and then serves the chosen source, if there is one. -/
theorem poll_cases (m : Machine) :
    (m.accept.next? = none ∧ m.poll = (m.accept, none)) ∨
    ∃ s, m.accept.next? = some s ∧ m.poll = ((m.accept.dequeue s).serve s, some s) := by
  cases h : m.accept.next? with
  | none => exact .inl ⟨rfl, poll_of_none h⟩
  | some s => exact .inr ⟨s, rfl, poll_of_some h⟩

theorem poll_fst_of_snd {m : Machine} {s : Source} (h : m.poll.2 = some s) :
    m.poll.1 = (m.accept.dequeue s).serve s := by
  rcases poll_cases m with ⟨-, hp⟩ | ⟨t, -, hp⟩
  · rw [hp] at h
    cases h
  · rw [hp] at h
    cases h
    rw [hp]

/-! ## Service -/

theorem serve_reset (m : Machine) : m.serve .reset = (m.note .resetRequested).reset :=
  rfl

theorem serve_of_ne {m : Machine} {s : Source} (h : s ≠ .reset) : m.serve s = m.enter s :=
  if_neg h

theorem poll_fst (m : Machine) :
    m.poll.1 = m.accept ∨
    m.poll.1 = ((m.accept.dequeue .reset).note .resetRequested).reset ∨
    ∃ s, m.poll.1 = (m.accept.dequeue s).enter s := by
  rcases poll_cases m with ⟨-, hp⟩ | ⟨s, -, hp⟩
  · rw [hp]
    exact .inl rfl
  · rw [hp]
    by_cases hr : s = .reset
    · rw [hr, serve_reset]
      exact .inr (.inl rfl)
    · rw [serve_of_ne hr]
      exact .inr (.inr ⟨s, rfl⟩)

/-- A poll that serves no reset accepts, and may enter a routine. -/
theorem poll_fst_of_ne {m : Machine} (h : m.poll.2 ≠ some .reset) :
    m.poll.1 = m.accept ∨ ∃ s, m.poll.1 = (m.accept.dequeue s).enter s := by
  rcases poll_cases m with ⟨-, hp⟩ | ⟨s, -, hp⟩
  · rw [hp]
    exact .inl rfl
  · rw [hp] at h ⊢
    exact .inr ⟨s, serve_of_ne fun heq => h (congrArg some heq)⟩

/-- The record of a service routine that is entered now. -/
def serviceOf (m : Machine) (s : Source) : Service where
  source := s
  returnPc := m.cpu.pc
  psw := (m.pushAddress m.cpu.pc).psw
  previousLevel := m.cpu.level

theorem enter_services (m : Machine) (s : Source) :
    (m.enter s).cpu.services = m.serviceOf s :: m.cpu.services :=
  rfl

theorem enter_level (m : Machine) (s : Source) : (m.enter s).cpu.level = s.level :=
  rfl

theorem enter_queue (m : Machine) (s : Source) : (m.enter s).cpu.queue = m.cpu.queue :=
  rfl

theorem queue_poll_of_ne {m : Machine} {s : Source} (h : m.poll.2 = some s) (hs : s ≠ .reset) :
    m.poll.1.cpu.queue = m.accept.cpu.queue.erase s := by
  rw [poll_fst_of_snd h, serve_of_ne hs, enter_queue]
  rfl

theorem enter_interrupts (m : Machine) (s : Source) : (m.enter s).interrupts = m.interrupts :=
  rfl

theorem enter_latches (m : Machine) (s : Source) : (m.enter s).ram.latches = m.ram.latches :=
  (Ram.latches_write ..).trans ((Keeps.push m _).trans (Keeps.push ..)).latches

end VisualMemory.Machine
