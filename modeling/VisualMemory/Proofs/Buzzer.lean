import VisualMemory.Machine.Step

/-!
# What the buzzer hears

The signals of the timers reach the buzzer one after the other, whichever machine it is part of.

* `Buzzer.hear`: the buzzer after a signal.
* `foldl_hear_period`, `foldl_hear_enabled`: what of its past a buzzer keeps.
* `Timer.hear_signals`: the buzzer after all signals of a clock.
* `Machine.takeTimer0_buzzer`, `Machine.takeTimer1_buzzer`: the buzzer after a timer's outcome.
-/

namespace VisualMemory

def Buzzer.hear (b : Buzzer) : Timer.Signal → Buzzer
  | .period value => { b with period := value }
  | .sound on => { b with enabled := on }
  | .lowOverflow | .highOverflow => b

namespace Buzzer

variable {b b' : Buzzer} (signals : List Timer.Signal)

theorem foldl_hear_period (h : b.period = b'.period) :
    (signals.foldl hear b).period = (signals.foldl hear b').period := by
  induction signals generalizing b b' with
  | nil => exact h
  | cons s signals ih =>
    refine ih ?_
    cases s with
    | period value => rfl
    | _ => exact h

/-- The buzzer is on or off alike if it was before, and in any case after a signal that says so. -/
theorem foldl_hear_enabled (h : b.enabled = b'.enabled ∨ ∃ on, .sound on ∈ signals) :
    (signals.foldl hear b).enabled = (signals.foldl hear b').enabled := by
  induction signals generalizing b b' with
  | nil =>
    rcases h with h | ⟨on, h⟩
    · exact h
    · cases h
  | cons s signals ih =>
    refine ih ?_
    cases s with
    | sound on => exact .inl rfl
    | _ =>
      rcases h with h | ⟨on, h⟩
      · exact .inl h
      · exact .inr ⟨on, (List.mem_cons.mp h).resolve_left (by intro h; cases h)⟩

end Buzzer

/-- A start is the only news about the period, and overflows are none for the buzzer. -/
theorem Timer.hear_signals (t : Timer) (c : Control) (k : Tick) (b : Buzzer) :
    (t.signals c k).foldl Buzzer.hear b =
      if t.drivesBuzzer then ⟨k.started.getD b.period, c.sounds⟩ else b := by
  obtain ⟨low, high, started, lowOverflow, highOverflow⟩ := k
  unfold Timer.signals
  cases t.drivesBuzzer
  · cases lowOverflow <;> cases highOverflow <;> rfl
  · cases started <;> cases lowOverflow <;> cases highOverflow <;> rfl

namespace Machine

theorem hear_buzzer (m : Machine) (layout : Timer.Layout) (s : Timer.Signal) :
    (m.hear layout s).buzzer = m.buzzer.hear s := by
  cases s with
  | period value =>
    simp only [hear]
    split
    · rfl
    · rfl
  | _ => rfl

theorem foldl_hear_buzzer (signals : List Timer.Signal) (m : Machine) (layout : Timer.Layout) :
    (signals.foldl (·.hear layout) m).buzzer = signals.foldl Buzzer.hear m.buzzer := by
  induction signals generalizing m with
  | nil => rfl
  | cons s signals ih => rw [List.foldl_cons, List.foldl_cons, ih, hear_buzzer]

theorem takeTimer0_buzzer (m : Machine) (o : Timer.Outcome) :
    (m.takeTimer0 o).buzzer = o.signals.foldl Buzzer.hear m.buzzer :=
  foldl_hear_buzzer ..

theorem takeTimer1_buzzer (m : Machine) (o : Timer.Outcome) :
    (m.takeTimer1 o).buzzer = o.signals.foldl Buzzer.hear m.buzzer :=
  foldl_hear_buzzer ..

end Machine

end VisualMemory
