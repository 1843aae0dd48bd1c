import VisualMemory.Proofs.Reset.Twin
import VisualMemory.Proofs.Timer.Divider

/-!
# The clocks of a run

In a run both timers are clocked again and again, each clock of them with a memory of its own. What a
timer does in a run is decided by what it sees at its clocks.

* `Timer.Moment`: a clock of a timer, with the timer before it and the memory that it sees.
* `Timer.Follows`: clocks that come one after the other, from one timer to another.
  `Follows.timer_eq`: each finds what the one before it has left.
* `Act.moments`, `Machine.moments`: the clocks of a timer in one act, and in many.
* `Recorded`: what has to be shown of a relation between a machine, the clocks that follow and the
  machine after them, for it to hold of every run. `Recorded.act`, `Recorded.runActs`.
* `Machine.follows`: the clocks of a run come one after the other.
* `length_stepMoments`: timer 1 is clocked in every cycle.
-/

namespace VisualMemory

open Interrupt (Controller)

namespace Timer

/-- A clock of a timer: the timer as it is before, and the memory that it sees. -/
structure Moment where
  timer : Timer
  ram : Ram

namespace Moment

def control (x : Moment) : Control :=
  x.timer.control x.ram

def reloads (x : Moment) : Reloads :=
  x.timer.reloads x.ram

def tick (x : Moment) : Tick :=
  .of x.control x.reloads x.timer.low x.timer.high

def next (x : Moment) : Timer :=
  { x.timer with low := x.tick.low, high := x.tick.high }

end Moment

/-- The clock that a cycle is, if the divider lets it through. -/
def moments (t : Timer) (ram : Ram) : List Moment :=
  if t.fires ram then [⟨t.divided ram, ram⟩] else []

/-- The timer as far as clocks can tell: without its divider. -/
def bare (t : Timer) : Timer :=
  { t with prescaler := none }

/-- These clocks lead, one after the other, from a timer to another. -/
def Follows (t : Timer) : List Moment → Timer → Prop
  | [], u => u.bare = t.bare
  | x :: rest, u => x.timer.bare = t.bare ∧ x.next.Follows rest u

theorem bare_eq_iff {t u : Timer} : t.bare = u.bare ↔
    t.layout = u.layout ∧ t.drivesBuzzer = u.drivesBuzzer ∧ t.low = u.low ∧ t.high = u.high := by
  simp [bare]

theorem follows_congr {t t' u : Timer} (h : t'.bare = t.bare) {l : List Moment} :
    t'.Follows l u ↔ t.Follows l u := by
  cases l with
  | nil => rw [Follows, Follows, h]
  | cons x rest => rw [Follows, Follows, h]

theorem follows_tick (t : Timer) (ram : Ram) (c : Controller) :
    t.Follows [⟨t, ram⟩] (t.tick ram c).timer :=
  ⟨rfl, rfl⟩

theorem follows_step (t : Timer) (ram : Ram) (c : Controller) :
    t.Follows (t.moments ram) (t.step ram c).timer := by
  unfold moments
  by_cases h : t.fires ram = true
  · rw [if_pos h, step_of_fires h]
    exact follows_tick (t.divided ram) ram c
  · rw [if_neg h, step_of_not_fires h]
    exact rfl

theorem moments_of_wired {t : Timer} (h : t.WiredAs one) (ram : Ram) :
    t.moments ram = [⟨t, ram⟩] := by
  have hfires : t.fires ram = true := by rw [fires, h.undivided]
  have hdivided : t.divided ram = t := by rw [divided, h.undivided, Option.map_none, ← h.undivided]
  rw [moments, if_pos hfires, hdivided]

namespace Follows

variable {t u v : Timer} {l l' : List Moment}

theorem refl (h : u = t) : t.Follows [] u :=
  congrArg bare h

theorem trans (h : t.Follows l u) (h' : u.Follows l' v) : t.Follows (l ++ l') v := by
  induction l generalizing t with
  | nil => exact (follows_congr h).mp h'
  | cons x rest ih => exact ⟨h.1, ih h.2⟩

theorem layout_eq (h : t.Follows l u) {x : Moment} (hx : x ∈ l) : x.timer.layout = t.layout := by
  induction l generalizing t with
  | nil => cases hx
  | cons y rest ih =>
    have hy : y.timer.layout = t.layout := (bare_eq_iff.mp h.1).1
    rcases List.mem_cons.mp hx with rfl | hx
    · exact hy
    · exact (ih h.2 hx).trans hy

theorem timer_eq {before after : List Moment} {x : Moment}
    (h : t.Follows (before ++ x :: after) u) :
    x.timer.bare = (before.getLast?.elim t Moment.next).bare := by
  induction before generalizing t with
  | nil => exact h.1
  | cons y before ih =>
    rw [ih h.2, List.getLast?_cons]
    cases before.getLast? with
    | none => rfl
    | some z => rfl

theorem bare_of_last {before : List Moment} {x : Moment} (h : t.Follows (before ++ [x]) u) :
    u.bare = x.next.bare := by
  induction before generalizing t with
  | nil => exact h.2
  | cons y before ih => exact ih h.2

end Follows

/-- The timers of a machine. -/
inductive Which where
  | zero
  | one
  deriving DecidableEq

/-- The timer as it was built. -/
def Which.built : Which → Timer
  | zero => .zero
  | one => .one

theorem Which.layout_built (w : Which) : w.built.layout = .timer0 ∨ w.built.layout = .timer1 := by
  cases w with
  | zero => exact .inl rfl
  | one => exact .inr rfl

end Timer

open Timer (Moment Which)

/-! ## Runs -/

namespace Machine

def timer (m : Machine) : Which → Timer
  | .zero => m.timer0
  | .one => m.timer1

/-- The clocks of a timer in one cycle: timer 0 comes first. -/
def cycleMoments (w : Which) (m : Machine) : List Moment :=
  match w with
  | .zero => m.timer0.moments m.ram
  | .one => m.stepTimer0.timer1.moments m.stepTimer0.ram

def elapseMoments (w : Which) (m : Machine) : Nat → List Moment
  | 0 => []
  | cycles + 1 => m.cycleMoments w ++ m.stepTimer0.stepTimer1.elapseMoments w cycles

def stepMoments (w : Which) (m : Machine) : List Moment :=
  let (m, progress) := m.processInstruction m.debug
  m.elapseMoments w progress.cycles

def stepsMoments (w : Which) (m : Machine) : Nat → List Moment
  | 0 => []
  | steps + 1 => m.stepMoments w ++ m.step.1.stepsMoments w steps

end Machine

def Act.moments (w : Which) (m : Machine) (a : Act) : List Moment :=
  match a, w with
  | step, w => m.stepMoments w
  | runFor cycles, w => m.stepsMoments w (m.stepsFor cycles.toNat)
  | stepTimer0, .zero => m.timer0.moments m.ram
  | stepTimer1, .one => m.timer1.moments m.ram
  | tickTimer0, .zero => [⟨m.timer0, m.ram⟩]
  | tickTimer1, .one => [⟨m.timer1, m.ram⟩]
  | _, _ => []

/-- The clocks of a timer in acts, one after the other. -/
def Machine.moments (w : Which) (m : Machine) : List Act → List Moment
  | [] => []
  | a :: acts => a.moments w m ++ (a.run m).moments w acts

/-- A relation between a machine, clocks of one of its timers, and the machine after them, that holds
of the parts of a step and adds up. -/
structure Recorded (w : Which) (R : Machine → List Moment → Machine → Prop) : Prop where
  quiet : ∀ {m n : Machine}, Machine.Quiet m n → R m [] n
  trans : ∀ {m n k : Machine} {l l' : List Moment}, R m l n → R n l' k → R m (l ++ l') k
  stepTimer0 : ∀ m : Machine, R m (Act.stepTimer0.moments w m) m.stepTimer0
  stepTimer1 : ∀ m : Machine, R m (Act.stepTimer1.moments w m) m.stepTimer1
  tickTimer0 : ∀ m : Machine, R m (Act.tickTimer0.moments w m) m.tickTimer0
  tickTimer1 : ∀ m : Machine, R m (Act.tickTimer1.moments w m) m.tickTimer1

namespace Recorded

open Machine (Quiet runs_processInstruction runs_execute)

variable {w : Which} {R : Machine → List Moment → Machine → Prop} (hR : Recorded w R) (m : Machine)

include hR

theorem cycle : R m (m.cycleMoments w) m.stepTimer0.stepTimer1 := by
  have h := hR.trans (hR.stepTimer0 m) (hR.stepTimer1 m.stepTimer0)
  cases w with
  | zero =>
    rw [show m.cycleMoments .zero = Act.stepTimer0.moments .zero m ++
      Act.stepTimer1.moments .zero m.stepTimer0 from (List.append_nil _).symm]
    exact h
  | one => exact h

theorem elapse (cycles : Nat) : R m (m.elapseMoments w cycles) (m.elapse cycles) := by
  induction cycles generalizing m with
  | zero => exact hR.quiet ⟨rfl, rfl, rfl⟩
  | succ cycles ih => exact hR.trans (hR.cycle m) (ih _)

theorem step : R m (m.stepMoments w) m.step.1 := by
  have hrun := hR.quiet (runs_processInstruction m m.debug).outside.quiet
  have hpoll := hR.quiet (Machine.quiet_poll m.advance.1)
  have h := hR.trans (hR.trans hrun (hR.elapse _ _)) hpoll
  rw [List.nil_append, List.append_nil] at h
  exact h

theorem runSteps (elapsed steps : Nat) :
    R m (m.stepsMoments w steps) (m.runSteps elapsed steps).1 := by
  induction steps generalizing m elapsed with
  | zero => exact hR.quiet ⟨rfl, rfl, rfl⟩
  | succ steps ih => exact hR.trans (hR.step m) (ih m.step.1 (elapsed + m.step.2))

theorem act (a : Act) : R m (a.moments w m) (a.run m) := by
  cases a with
  | step => exact hR.step m
  | runFor cycles =>
    have h := hR.runSteps m 0 (m.stepsFor cycles.toNat)
    rwa [← Machine.runOn_eq_runSteps] at h
  | stepTimer0 => exact hR.stepTimer0 m
  | stepTimer1 => exact hR.stepTimer1 m
  | tickTimer0 => exact hR.tickTimer0 m
  | tickTimer1 => exact hR.tickTimer1 m
  | instruction noted => exact hR.quiet (runs_processInstruction m noted).outside.quiet
  | execute raw => exact hR.quiet (runs_execute m raw).outside.quiet
  | poll => exact hR.quiet (Machine.quiet_poll m)
  | writeProgram address value => exact hR.quiet (Machine.quiet_writeProgram m address value)
  | _ => exact hR.quiet ⟨rfl, rfl, rfl⟩

theorem runActs (acts : List Act) : R m (m.moments w acts) (m.runActs acts) := by
  induction acts generalizing m with
  | nil => exact hR.quiet ⟨rfl, rfl, rfl⟩
  | cons a acts ih => exact hR.trans (hR.act m a) (ih _)

end Recorded

namespace Machine

theorem follows_recorded (w : Which) :
    Recorded w fun m l n => (m.timer w).Follows l (n.timer w) where
  quiet := by
    intro m n h
    cases w with
    | zero => exact .refl h.timer0
    | one => exact .refl h.timer1
  trans := Timer.Follows.trans
  stepTimer0 := by
    intro m
    cases w with
    | zero =>
      show m.timer0.Follows _ (m.takeTimer0 _).timer0
      rw [takeTimer0_timer0]
      exact Timer.follows_step ..
    | one => exact .refl (takeTimer0_timer1 ..)
  stepTimer1 := by
    intro m
    cases w with
    | zero => exact .refl (takeTimer1_timer0 ..)
    | one =>
      show m.timer1.Follows _ (m.takeTimer1 _).timer1
      rw [takeTimer1_timer1]
      exact Timer.follows_step ..
  tickTimer0 := by
    intro m
    cases w with
    | zero =>
      show m.timer0.Follows _ (m.takeTimer0 _).timer0
      rw [takeTimer0_timer0]
      exact Timer.follows_tick ..
    | one => exact .refl (takeTimer0_timer1 ..)
  tickTimer1 := by
    intro m
    cases w with
    | zero => exact .refl (takeTimer1_timer0 ..)
    | one =>
      show m.timer1.Follows _ (m.takeTimer1 _).timer1
      rw [takeTimer1_timer1]
      exact Timer.follows_tick ..

theorem follows (m : Machine) (w : Which) (acts : List Act) :
    (m.timer w).Follows (m.moments w acts) ((m.runActs acts).timer w) :=
  (follows_recorded w).runActs m acts

theorem bare_of_last_moment {m : Machine} {w : Which} {acts : List Act} {before : List Moment}
    {x : Moment} (h : m.moments w acts = before ++ [x]) :
    ((m.runActs acts).timer w).bare = x.next.bare :=
  Timer.Follows.bare_of_last (h ▸ m.follows w acts)

theorem timer_boot {bios flash : Array UInt8} {config : Config} {journal : Journal} {m : Machine}
    (h : boot bios flash config journal = .ok m) (w : Which) : m.timer w = w.built := by
  obtain ⟨rom, chip, -, -, rfl⟩ := boot_eq_ok h
  split
  · cases w <;> rfl
  · cases w <;> rfl

/-! ## Clocks and cycles -/

theorem length_elapseMoments {m : Machine} (h : m.Wired) (cycles : Nat) :
    (m.elapseMoments .one cycles).length = cycles := by
  induction cycles generalizing m with
  | zero => rfl
  | succ cycles ih =>
    have h0 := Wired.invariant.stepTimer0 h
    have hcycle : m.cycleMoments .one = [⟨m.stepTimer0.timer1, m.stepTimer0.ram⟩] :=
      Timer.moments_of_wired h0.timer1 _
    rw [elapseMoments, hcycle, List.length_append, ih (Wired.invariant.stepTimer1 h0),
      List.length_singleton, Nat.add_comm]

theorem length_stepMoments {m : Machine} (h : m.Wired) :
    (m.stepMoments .one).length = m.step.2 :=
  length_elapseMoments (Wired.invariant.outside h (runs_processInstruction m m.debug).outside) _

end Machine

end VisualMemory
