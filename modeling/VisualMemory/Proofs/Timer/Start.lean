import VisualMemory.Proofs.Timer.Counting
import VisualMemory.Proofs.Timer.Moment

/-!
# Starts

A half that a program starts should begin with its reload value, whatever the register held when it
was last looked at. The low half does. The high half goes on from the count that it has been left
with, which is the reload value that the clock before saw, or after long mode may be one more.

* `Captures`: what a start from a reload value leaves. `captures_iff`: what a half has to go on from
  to leave that.
* `Follows.low_eq`, `Follows.high_eq`: what a clock finds in the halves.
* `Moment.low_captures`, `Moment.high_goes_on`: what it leaves there.
* `half_starts`: the starts of both halves, in all runs. `high_start_not_captured`: one that is missed.
-/

namespace VisualMemory

namespace Timer

open Interrupt (Controller)

/-! ## Counts and flags -/

/-- The first clock of a half takes it to one more than its reload value. From the last byte it comes
back there, with the overflow recorded. -/
def Captures (reload : UInt8) (count : UInt16) (overflow : Bool) : Prop :=
  if reload = 0xFF then count = 0xFF ∧ overflow = true else count = reload.toUInt16 + 1

instance (reload : UInt8) (count : UInt16) (overflow : Bool) :
    Decidable (Captures reload count overflow) :=
  inferInstanceAs (Decidable (if reload = 0xFF then _ else _))

theorem add_one_eq_last {start : UInt16} : start + 1 = 0xFF ↔ start = 0xFE :=
  UInt16.add_left_inj (b := 0xFE) 1

/-- A half looks as if it had captured its reload value exactly if it goes on from there, or if it
gets to the last byte under a flag that was set before. -/
theorem captures_iff (start : UInt16) (reload : UInt8) (before : Bool) :
    Captures reload (if start = 0xFF then reload.toUInt16 else start + 1)
        (before || decide (start = 0xFF)) ↔
      start = reload.toUInt16 ∨ reload = 0xFF ∧ start = 0xFE ∧ before = true := by
  by_cases hlast : reload = 0xFF
  · subst hlast
    by_cases hstart : start = 0xFF
    · simp [Captures, hstart]
    · simp [Captures, hstart, add_one_eq_last]
  · have hreload : reload.toUInt16 ≠ 0xFF := fun h => hlast (toUInt16_eq_last.mp h)
    rw [Captures, if_neg hlast]
    by_cases hstart : start = 0xFF
    · rw [if_pos hstart, hstart]
      simp [hlast, hreload.symm]
    · rw [if_neg hstart, UInt16.add_left_inj]
      simp [hlast]

/-! ## What a clock finds -/

namespace Follows

variable {t u : Timer} {before after : List Moment} {x : Moment}
  (h : t.Follows (before ++ x :: after) u)

include h

theorem low_eq : x.timer.low = before.getLast?.elim t.low (·.tick.low) := by
  rw [(bare_eq_iff.mp h.timer_eq).2.2.1]
  cases before.getLast? with
  | none => rfl
  | some y => rfl

theorem high_eq : x.timer.high = before.getLast?.elim t.high (·.tick.high) := by
  rw [(bare_eq_iff.mp h.timer_eq).2.2.2]
  cases before.getLast? with
  | none => rfl
  | some y => rfl

theorem low_unstarted (ht : t.low.clocks = 0)
    (hprev : ∀ y ∈ before.getLast?, y.control.lowRun = false) : x.timer.low.clocks = 0 := by
  rw [h.low_eq]
  cases hlast : before.getLast? with
  | none => exact ht
  | some y => exact Tick.clocks_low_eq_zero_iff.mpr (hprev y hlast)

theorem high_le (ht : t.high.count ≤ 0xFF) : x.timer.high.count ≤ 0xFF := by
  rw [h.high_eq]
  cases before.getLast? with
  | none => exact ht
  | some y => exact Tick.high_count_le ..

end Follows

/-! ## What a clock leaves -/

namespace Moment

variable {x : Moment} (hlong : x.control.longMode = false)

include hlong

theorem low_captures (hrun : x.control.lowRun = true) (hclocks : x.timer.low.clocks = 0) :
    Captures x.reloads.low x.tick.low.count (x.tick.control x.control).lowOverflow := by
  have hstart := Half.start_of_unstarted hclocks x.reloads.low
  have hs := Half.start_le (.inl hclocks) x.reloads.low
  obtain ⟨hover, hcount⟩ : x.tick.lowOverflow = decide (_ = (0xFF : UInt16)) ∧
      x.tick.low.count = _ := Tick.low_alone hlong hrun hs
  rw [Tick.control, hlong, Bool.and_false, Bool.or_false, hover, hcount, captures_iff]
  exact .inl hstart

/-- A high half goes on from its count, whether it has been started or not. -/
theorem high_goes_on (hrun : x.control.highRun = true) (hle : x.timer.high.count ≤ 0xFF) :
    x.tick.high.count = (if x.timer.high.count = 0xFF then x.reloads.high.toUInt16
      else x.timer.high.count + 1) ∧
    (x.tick.control x.control).highOverflow =
      (x.control.highOverflow || decide (x.timer.high.count = 0xFF)) := by
  obtain ⟨hover, hcount⟩ : x.tick.highOverflow = decide (_ = (0xFF : UInt16)) ∧
      x.tick.high.count = _ := Tick.high_alone hlong hrun hle
  rw [Tick.control, hover]
  exact ⟨hcount, rfl⟩

theorem high_of_stopped (hrun : x.control.highRun = false) :
    x.tick.high.count = x.reloads.high.toUInt16 :=
  (Tick.high_stopped_alone hlong hrun).2

end Moment

end Timer

open Timer (Moment Which Captures)
open Interrupt (Controller)

/-- **Starts.** After a boot and any acts, take any clock of a timer outside long mode. If it sees the
low half run which the clock before, if any, saw stopped, then it starts the low half from its reload
value. If it sees such a high half, then that goes on from the count that the clock before has left,
or from zero at the first clock. Outside long mode that is the reload value which the clock before
saw. So the high half starts from its reload value exactly if that is the count it was left with,
unless it merely gets to the last byte under a flag that was set before. -/
theorem half_starts {bios flash : Array UInt8} {config : Config} {journal : Journal} {m : Machine}
    (h : Machine.boot bios flash config journal = .ok m) (w : Which) (acts : List Act)
    {before after : List Moment} {x : Moment} (hx : m.moments w acts = before ++ x :: after)
    (hlong : x.control.longMode = false) (c : Controller) :
    let o := x.timer.tick x.ram c
    let flags := x.timer.control o.ram
    let held := before.getLast?.elim 0 (·.tick.high.count)
    let reload := x.reloads.high
    (x.control.lowRun = true → (∀ y ∈ before.getLast?, y.control.lowRun = false) →
      Captures x.reloads.low o.timer.low.count flags.lowOverflow) ∧
    (x.control.highRun = true → (∀ y ∈ before.getLast?, y.control.highRun = false) →
      o.timer.high.count = (if held = 0xFF then reload.toUInt16 else held + 1) ∧
      flags.highOverflow = (x.control.highOverflow || decide (held = 0xFF)) ∧
      (∀ y ∈ before.getLast?, y.control.longMode = false →
        held = y.reloads.high.toUInt16) ∧
      (Captures reload o.timer.high.count flags.highOverflow ↔
        held = reload.toUInt16 ∨
          reload = 0xFF ∧ held = 0xFE ∧ x.control.highOverflow = true)) := by
  intro o flags held reload
  have hrun : w.built.Follows (before ++ x :: after) ((m.runActs acts).timer w) := by
    rw [← hx, ← Machine.timer_boot h w]
    exact m.follows w acts
  have hl : x.timer.layout = .timer0 ∨ x.timer.layout = .timer1 := by
    rw [hrun.layout_eq (List.mem_append_right _ (List.mem_cons_self ..))]
    exact w.layout_built
  have hflags : flags = x.tick.control x.control := Timer.control_tick hl x.ram c
  constructor
  · intro hlow hprev
    rw [hflags]
    exact Moment.low_captures hlong hlow (hrun.low_unstarted (by cases w <;> rfl) hprev)
  · intro hhigh hprev
    have hheld : x.timer.high.count = held := by
      rw [hrun.high_eq]
      show (before.getLast?.elim w.built.high _).count = before.getLast?.elim 0 _
      cases before.getLast? with
      | none => cases w <;> rfl
      | some y => rfl
    obtain ⟨hcount, hflag⟩ : o.timer.high.count = _ ∧ flags.highOverflow = _ :=
      hflags ▸ Moment.high_goes_on hlong hhigh (hrun.high_le (by cases w <;> decide))
    rw [hheld] at hcount hflag
    refine ⟨hcount, hflag, ?_, ?_⟩
    · intro y hy hlongBefore
      have hlast : before.getLast? = some y := hy
      show before.getLast?.elim 0 _ = _
      rw [hlast]
      exact Moment.high_of_stopped hlongBefore (hprev y hy)
    · rw [hcount, hflag]
      exact Timer.captures_iff held reload _

/-- A firmware that gives both halves of timer 1 their reload values, and then starts them. -/
def startFirmware : Array UInt8 :=
  #[0x23, 0x1B, 0xF0, 0x23, 0x1D, 0xFF, 0x23, 0x18, 0xC0]

/-- The fifth clock of timer 1 starts both halves. -/
theorem half_starts_of_both :
    let m := Machine.cold startFirmware (by decide)
    ∃ x, (m.moments .one [.step, .step, .step])[4]? = some x ∧
      (x.timer.tick x.ram {}).timer.low.count = 0xF1 ∧
      (x.timer.tick x.ram {}).timer.high.count = 0xFF ∧
      (x.timer.control (x.timer.tick x.ram {}).ram).highOverflow = true := by
  intro m
  let ms := m.moments .one [.step, .step, .step]
  let seen (x : Moment) : Bool × Bool × Bool × UInt8 × UInt8 :=
    (x.control.lowRun, x.control.highRun, x.control.longMode, x.reloads.low, x.reloads.high)
  have hprevSeen : (ms.take 4).getLast?.map seen = some (false, false, false, 0xF0, 0xFF) := by
    decide +kernel
  have hseen : ms[4]?.map seen = some (true, true, false, 0xF0, 0xFF) := by decide +kernel
  obtain ⟨y, hy, hprev⟩ := Option.map_eq_some_iff.mp hprevSeen
  obtain ⟨x, hx, hnow⟩ := Option.map_eq_some_iff.mp hseen
  simp only [seen, Prod.mk.injEq] at hprev hnow
  obtain ⟨hlowBefore, hhighBefore, hlongBefore, -, hreloadBefore⟩ := hprev
  obtain ⟨hlow, hhigh, hlong, hreloadLow, hreloadHigh⟩ := hnow
  have hsplit : ms = ms.take 4 ++ x :: ms.drop 5 := by
    obtain ⟨hlt, rfl⟩ := List.getElem?_eq_some_iff.mp hx
    rw [List.getElem_cons_drop, List.take_append_drop]
  have hboot : Machine.boot startFirmware #[] {} {} = .ok m :=
    Machine.boot_firmware rfl (by decide) (by decide) (Nat.zero_le _)
  obtain ⟨hstart, hstartHigh⟩ := half_starts hboot .one [.step, .step, .step] hsplit hlong {}
  have hlowCaptured := hstart hlow (by rw [hy]; rintro _ ⟨⟩; exact hlowBefore)
  obtain ⟨-, -, hheld, hcaptures⟩ :=
    hstartHigh hhigh (by rw [hy]; rintro _ ⟨⟩; exact hhighBefore)
  have hhighCaptured := hcaptures.mpr
    (.inl ((hheld y hy hlongBefore).trans (by rw [hreloadBefore, hreloadHigh])))
  rw [hreloadLow] at hlowCaptured
  rw [hreloadHigh] at hhighCaptured
  exact ⟨x, hx, hlowCaptured, hhighCaptured⟩

/-- A firmware that gives the high half of timer 0 a reload value, and starts it before the divider
lets the first clock through. -/
def earlyStartFirmware : Array UInt8 :=
  #[0x23, 0x15, 0x10, 0x23, 0x10, 0x80, 0x01, 0xFE]

/-- The first clock of timer 0 sees the high half run with a reload value that it does not start
from. -/
theorem high_start_not_captured :
    let m := Machine.cold earlyStartFirmware (by decide)
    let acts := List.replicate 128 Act.step
    ∃ x, m.moments .zero acts = [x] ∧ x.control.highRun = true ∧ x.control.longMode = false ∧
      x.reloads.high = 0x10 ∧ x.tick.high.count = 0x01 ∧
      ((m.runActs acts).timer .zero).high.count = 0x01 := by
  intro m acts
  let seen (x : Moment) : Bool × Bool × UInt8 × UInt16 :=
    (x.control.highRun, x.control.longMode, x.reloads.high, x.tick.high.count)
  have hseen : (m.moments .zero acts).map seen = [(true, false, 0x10, 0x01)] := by decide +kernel
  obtain ⟨x, hx, hx'⟩ := List.map_eq_singleton_iff.mp hseen
  simp only [seen, Prod.mk.injEq] at hx'
  obtain ⟨hrun, hlong, hreload, hcount⟩ := hx'
  have hsplit : m.moments .zero acts = [] ++ [x] := hx
  have hleft := Timer.bare_eq_iff.mp (Machine.bare_of_last_moment hsplit)
  refine ⟨x, hx, hrun, hlong, hreload, hcount, ?_⟩
  rw [hleft.2.2.2]
  exact hcount

end VisualMemory
