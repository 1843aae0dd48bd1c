import Mathlib.Order.Bounds.Basic
import VisualMemory.Proofs.Checked.Run

/-!
# Running in slices

A run by cycles stops at the first step that reaches them, and steps are of different lengths, so it
takes a few cycles more than it is asked for. What counts is how many steps it makes: asked for what
one run took and for a second run's cycles, a single run makes the steps of both.

* `Machine.after`, `Machine.passed`: the machine after a number of steps, and the cycles they take.
* `Machine.stepsFor_le_iff`: which numbers of steps take so many cycles.
* `Machine.stepsFor_passed_add`: the steps of two runs, one after the other.
* `Machine.Loops`: the loop that counts cycles in machine words. `loops_stepsFor`: it ends.
* `run_in_slices`: where a run by cycles stops, and that slicing it does not matter.
-/

namespace VisualMemory

namespace Machine

/-! ## Steps and the cycles they take -/

def after (m : Machine) : Nat → Machine
  | 0 => m
  | steps + 1 => m.step.1.after steps

def passed (m : Machine) : Nat → Nat
  | 0 => 0
  | steps + 1 => m.step.2 + m.step.1.passed steps

theorem runSteps_eq (m : Machine) (elapsed steps : Nat) :
    m.runSteps elapsed steps = (m.after steps, elapsed + m.passed steps) := by
  induction steps generalizing m elapsed with
  | zero => rfl
  | succ steps ih =>
    show m.step.1.runSteps (elapsed + m.step.2) steps = _
    rw [ih, Nat.add_assoc]
    rfl

theorem after_add (m : Machine) (j k : Nat) : m.after (j + k) = (m.after j).after k := by
  induction j generalizing m with
  | zero => rw [Nat.zero_add]; rfl
  | succ j ih =>
    rw [Nat.succ_add]
    exact ih m.step.1

theorem passed_add (m : Machine) (j k : Nat) :
    m.passed (j + k) = m.passed j + (m.after j).passed k := by
  induction j generalizing m with
  | zero => rw [Nat.zero_add, passed, Nat.zero_add]; rfl
  | succ j ih =>
    rw [Nat.succ_add, passed, ih, passed, after, Nat.add_assoc]

theorem stepsFor_le_iff (m : Machine) (cycles k : Nat) :
    m.stepsFor cycles ≤ k ↔ cycles ≤ m.passed k := by
  induction k generalizing m cycles with
  | zero =>
    by_cases hz : cycles = 0
    · rw [stepsFor, if_pos hz, hz]
      exact iff_of_true (Nat.zero_le _) (Nat.zero_le _)
    · rw [stepsFor_of_ne_zero m hz, passed]
      exact iff_of_false (Nat.not_succ_le_zero _) (mt Nat.eq_zero_of_le_zero hz)
  | succ k ih =>
    by_cases hz : cycles = 0
    · rw [stepsFor, if_pos hz, hz]
      exact iff_of_true (Nat.zero_le _) (Nat.zero_le _)
    · rw [stepsFor_of_ne_zero m hz, Nat.add_le_add_iff_right, ih, Nat.sub_le_iff_le_add', passed]

theorem isLeast_stepsFor (m : Machine) (cycles : Nat) :
    IsLeast {k | cycles ≤ m.passed k} (m.stepsFor cycles) :=
  ⟨(m.stepsFor_le_iff cycles _).mp (Nat.le_refl _), fun _ h => (m.stepsFor_le_iff cycles _).mpr h⟩

theorem runFor_eq (m : Machine) (cycles : Nat) :
    m.runFor cycles = (m.after (m.stepsFor cycles), m.passed (m.stepsFor cycles)) := by
  rw [runFor, runOn_eq_runSteps, runSteps_eq, Nat.zero_add]

/-- A run is asked for a cycle at least before its last step, and that takes seven at most. -/
theorem passed_stepsFor_le (m : Machine) {cycles : Nat} (h : 0 < cycles) :
    m.passed (m.stepsFor cycles) ≤ cycles + 6 := by
  have hsteps := m.stepsFor_of_ne_zero (Nat.ne_of_gt h)
  have hbefore : m.passed (m.step.1.stepsFor (cycles - m.step.2)) < cycles := by
    rw [← Nat.not_le, ← stepsFor_le_iff, hsteps]
    exact Nat.not_succ_le_self _
  have hlast := (m.after (m.step.1.stepsFor (cycles - m.step.2))).step_cycles_le
  rw [hsteps, passed_add, passed, passed]
  omega

/-- A run that is asked for the cycles of some steps and more makes these steps, and those for the
rest. -/
theorem stepsFor_passed_add (m : Machine) (j b : Nat) :
    m.stepsFor (m.passed j + b) = j + (m.after j).stepsFor b := by
  induction j generalizing m with
  | zero => rw [passed, Nat.zero_add, Nat.zero_add, after]
  | succ j ih =>
    have hpos := m.step_cycles_pos
    have hne : m.step.2 + m.step.1.passed j + b ≠ 0 := by omega
    have hrest : m.step.2 + m.step.1.passed j + b - m.step.2 = m.step.1.passed j + b := by omega
    rw [passed, stepsFor_of_ne_zero m hne, hrest, ih, after, Nat.succ_add]

/-! ## Counting in words -/

/-- The loop with a word for the cycles that have passed: `Loops cycles m elapsed k n elapsed'` says
that it ends from `m` after `k` steps, in `n`. -/
inductive Loops (cycles : UInt64) : Machine → UInt64 → Nat → Machine → UInt64 → Prop
  | done {m : Machine} {elapsed : UInt64} (h : ¬ elapsed < cycles) :
      Loops cycles m elapsed 0 m elapsed
  | more {m n : Machine} {elapsed elapsed' : UInt64} {k : Nat} (h : elapsed < cycles)
      (hrest : Loops cycles m.step.1 (elapsed + UInt64.ofNat m.step.2) k n elapsed') :
      Loops cycles m elapsed (k + 1) n elapsed'

theorem loops_stepsFor {cycles : UInt64} (hc : cycles.toNat ≤ UInt64.size - 7) (m : Machine)
    (elapsed : UInt64) :
    ∃ elapsed', Loops cycles m elapsed (m.stepsFor (cycles.toNat - elapsed.toNat))
        (m.after (m.stepsFor (cycles.toNat - elapsed.toNat))) elapsed' ∧
      elapsed'.toNat = elapsed.toNat + m.passed (m.stepsFor (cycles.toNat - elapsed.toNat)) := by
  -- Each step leaves a run for the rest of the cycles, and that is shorter by this step.
  induction hk : m.stepsFor (cycles.toNat - elapsed.toNat) generalizing m elapsed with
  | zero =>
    have hle := (m.stepsFor_le_iff _ 0).mp (Nat.le_of_eq hk)
    rw [passed] at hle
    refine ⟨elapsed, .done ?_, rfl⟩
    rw [UInt64.lt_iff_toNat_lt]
    omega
  | succ k ih =>
    by_cases hlt : elapsed < cycles
    · have hlt' := UInt64.lt_iff_toNat_lt.mp hlt
      have hnext := (Checked.addCycles_eq (by omega : elapsed.toNat < UInt64.size - 7)
        m.step_cycles_le).2
      rw [stepsFor_of_ne_zero m (by omega), ← Nat.sub_add_eq, ← hnext] at hk
      obtain ⟨elapsed', hloop, hvalue⟩ := ih m.step.1 _ (Nat.succ.inj hk)
      refine ⟨elapsed', .more hlt hloop, ?_⟩
      rw [hvalue, hnext, passed, Nat.add_assoc]
    · rw [UInt64.lt_iff_toNat_lt] at hlt
      rw [stepsFor, if_pos (by omega)] at hk
      cases hk

end Machine

/-- **Running in slices.** A run by cycles makes the fewest steps that take them, ends in the machine
after these steps and says how many cycles they took, which are at most six more; counted in machine
words, too. So a run that is asked for what one run took and for the cycles of a second run goes
where the two go one after the other, and takes as long. -/
theorem run_in_slices (m : Machine) :
    (∀ cycles ≤ UInt64.size - 7, ∃ k,
      IsLeast {k | cycles ≤ m.passed k} k ∧ m.runFor cycles = (m.after k, m.passed k) ∧
        (cycles = 0 → k = 0) ∧ (0 < cycles → cycles ≤ m.passed k ∧ m.passed k ≤ cycles + 6) ∧
        ∃ elapsed, Machine.Loops (UInt64.ofNat cycles) m 0 k (m.after k) elapsed ∧
          elapsed.toNat = m.passed k) ∧
    ∀ a b, a + b + 6 ≤ UInt64.size - 7 →
      let first := m.runFor a
      let second := first.1.runFor b
      first.2 + b ≤ UInt64.size - 7 ∧ m.runFor (first.2 + b) = (second.1, first.2 + second.2) := by
  constructor
  · intro cycles hc
    have hleast := m.isLeast_stepsFor cycles
    refine ⟨m.stepsFor cycles, hleast, m.runFor_eq cycles, fun hz => ?_, fun hpos => ?_, ?_⟩
    · rw [Machine.stepsFor, if_pos hz]
    · exact ⟨hleast.1, m.passed_stepsFor_le hpos⟩
    · have hword : (UInt64.ofNat cycles).toNat = cycles :=
        UInt64.toNat_ofNat_of_lt' (Nat.lt_of_le_of_lt hc (by decide))
      have hloops := Machine.loops_stepsFor (hword.symm ▸ hc) m 0
      rw [hword, UInt64.toNat_zero, Nat.sub_zero, Nat.zero_add] at hloops
      exact hloops
  · intro a b hab first second
    have hfirst : first = (m.after (m.stepsFor a), m.passed (m.stepsFor a)) := m.runFor_eq a
    have hsecond : second = _ := first.1.runFor_eq b
    constructor
    · rw [hfirst]
      by_cases hz : a = 0
      · rw [hz, Machine.stepsFor, if_pos rfl, Machine.passed]
        omega
      · have hle := m.passed_stepsFor_le (Nat.pos_of_ne_zero hz)
        dsimp only
        omega
    · rw [hsecond, hfirst, Machine.runFor_eq, Machine.stepsFor_passed_add, Machine.after_add,
        Machine.passed_add]

/-- A firmware of two instructions, of seven cycles and of one. -/
def unevenFirmware : Machine :=
  Machine.cold #[0x40, 0x00] (by decide)

/-- Asked for two cycles, a run takes seven; asked for another one, one more. -/
theorem run_in_slices_uneven :
    (∃ k, IsLeast {k | 2 ≤ unevenFirmware.passed k} k ∧ unevenFirmware.passed k = 7) ∧
      ((unevenFirmware.runFor 2).1.runFor 1).2 = 1 ∧
      unevenFirmware.runFor 8 = (((unevenFirmware.runFor 2).1.runFor 1).1, 8) := by
  have hfirst : (unevenFirmware.runFor 2).2 = 7 := by decide +kernel
  have hsecond : ((unevenFirmware.runFor 2).1.runFor 1).2 = 1 := by decide +kernel
  obtain ⟨k, hleast, hrun, -⟩ := (run_in_slices unevenFirmware).1 2 (by decide)
  have hslices := ((run_in_slices unevenFirmware).2 2 1 (by decide)).2
  rw [hfirst, hsecond] at hslices
  rw [hrun] at hfirst
  exact ⟨⟨k, hleast, hfirst⟩, hsecond, hslices⟩

end VisualMemory
