import VisualMemory.Proofs.Timer.Countdown
import VisualMemory.Proofs.Timer.Sound

/-!
# How the halves count

What one clock does to the two halves of a timer, mode by mode, when both start it as bytes.

* `Half.start`: the count that a running low half goes on from.
* `Tick.low_alone`, `Tick.high_alone`: each half by itself, outside long mode.
* `Tick.chained`: the high half counts the ends of the low one.
* `Tick.by_two`: the high half stands still, and the low one counts by two.
-/

namespace VisualMemory.Timer

/-! ## Counts -/

theorem toUInt16_eq_last {r : UInt8} : r.toUInt16 = 0xFF ↔ r = 0xFF :=
  UInt8.toUInt16_inj (b := 0xFF)

theorem isOver_stopped (r : UInt8) : (Half.stopped r).isOver = false :=
  decide_eq_false (UInt16.not_lt.mpr (toUInt16_le r))

theorem isOver_of_le {x : UInt16} (h : x ≤ 0xFF) (clocks : UInt32) :
    Half.isOver ⟨x, clocks⟩ = false :=
  decide_eq_false (UInt16.not_lt.mpr h)

theorem isOver_add_one {x : UInt16} (h : x ≤ 0xFF) (clocks : UInt32) :
    Half.isOver ⟨x + 1, clocks⟩ = decide (x = 0xFF) := by
  have hle : x.toNat ≤ 255 := h
  have hadd := UInt16.toNat_add_one h
  rw [Half.isOver, decide_eq_decide, gt_iff_lt, UInt16.lt_iff_toNat_lt, ← UInt16.toNat_inj]
  show 255 < (x + 1).toNat ↔ x.toNat = 255
  omega

theorem isOver_add_two {x : UInt16} (h : x ≤ 0xFF) (clocks : UInt32) :
    Half.isOver ⟨x + 2, clocks⟩ = decide (0xFE ≤ x) := by
  have hadd := UInt16.toNat_add_two h
  rw [Half.isOver, decide_eq_decide, gt_iff_lt, UInt16.lt_iff_toNat_lt, UInt16.le_iff_toNat_le]
  show 255 < (x + 2).toNat ↔ 254 ≤ x.toNat
  omega

/-- The count that a running low half goes on from: the reload value at its start. -/
def Half.start (h : Half) (reload : UInt8) : UInt16 :=
  if h.clocks = 0 then reload.toUInt16 else h.count

theorem Half.start_of_unstarted {h : Half} (hz : h.clocks = 0) (reload : UInt8) :
    h.start reload = reload.toUInt16 :=
  if_pos hz

theorem Half.start_le {h : Half} (hle : h.clocks = 0 ∨ h.count ≤ 0xFF) (reload : UInt8) :
    h.start reload ≤ 0xFF := by
  unfold start
  split
  · exact toUInt16_le reload
  · exact hle.resolve_left ‹_›

namespace Tick

variable {c : Control} {r : Reloads} {low high : Half}

/-! ## One clock, whatever the mode -/

theorem advanceLow_of_run (h : c.lowRun = true) : advanceLow c r low =
    ⟨low.start r.low + (if c.longMode && !c.highRun then 2 else 1), low.nextClock⟩ := by
  rw [advanceLow, if_pos h]
  rfl

theorem clocks_low_of : (of c r low high).low.clocks = (advanceLow c r low).clocks := by
  simp only [of]
  split
  · rfl
  · split
    · rfl
    · rfl

theorem clocks_low_eq_zero_iff : (of c r low high).low.clocks = 0 ↔ c.lowRun = false := by
  rw [clocks_low_of, clocks_advanceLow]

theorem start_of (h : c.lowRun = true) (reload : UInt8) :
    (of c r low high).low.start reload = (of c r low high).low.count := by
  have hclocks : (of c r low high).low.clocks ≠ 0 := by
    rw [ne_eq, clocks_low_eq_zero_iff, h]
    decide
  rw [Half.start, if_neg hclocks]

theorem count_low_of : (of c r low high).low.count =
    if (of c r low high).highOverflow && c.longMode then r.low.toUInt16
    else if (advanceLow c r low).isOver then (if c.longMode then r.cascade else r.low).toUInt16
    else (advanceLow c r low).count := by
  simp only [of, apply_ite Half.count]
  rfl

theorem count_high_of : (of c r low high).high.count =
    if (of c r low high).highOverflow then r.high.toUInt16
    else (carryInto ((advanceLow c r low).isOver && c.longMode) (advanceHigh c r high)).count := by
  simp only [of, apply_ite Half.count]
  rfl

theorem lowOverflow_of :
    (of c r low high).lowOverflow = ((advanceLow c r low).isOver && !c.longMode) :=
  rfl

theorem highOverflow_of : (of c r low high).highOverflow =
    (carryInto ((advanceLow c r low).isOver && c.longMode) (advanceHigh c r high)).isOver :=
  rfl

theorem stopped (hlow : c.lowRun = false) (hhigh : c.highRun = false) :
    (of c r low high).low.clocks = 0 ∧ (of c r low high).high.count = r.high.toUInt16 := by
  have hahead : advanceLow c r low = .stopped r.low := by rw [advanceLow, hlow]; rfl
  have hhighAhead : advanceHigh c r high = .stopped r.high := by rw [advanceHigh, hhigh]; rfl
  refine ⟨clocks_low_eq_zero_iff.mpr hlow, ?_⟩
  rw [count_high_of, highOverflow_of, hahead, hhighAhead, isOver_stopped, Bool.false_and, carryInto,
    if_neg Bool.false_ne_true, isOver_stopped]
  rfl

/-! ## The halves by themselves -/

section

variable (hlong : c.longMode = false)

include hlong

theorem low_stopped_alone (hrun : c.lowRun = false) :
    (of c r low high).lowOverflow = false ∧ (of c r low high).low.count = r.low.toUInt16 := by
  have hahead : advanceLow c r low = .stopped r.low := by rw [advanceLow, hrun]; rfl
  rw [lowOverflow_of, count_low_of, hahead, isOver_stopped, hlong, Bool.and_false]
  exact ⟨rfl, rfl⟩

theorem high_stopped_alone (hrun : c.highRun = false) :
    (of c r low high).highOverflow = false ∧ (of c r low high).high.count = r.high.toUInt16 := by
  have hahead : advanceHigh c r high = .stopped r.high := by rw [advanceHigh, hrun]; rfl
  rw [count_high_of, highOverflow_of, hlong, Bool.and_false, carryInto, if_neg Bool.false_ne_true,
    hahead, isOver_stopped]
  exact ⟨rfl, rfl⟩

theorem low_alone (hrun : c.lowRun = true) (hs : low.start r.low ≤ 0xFF) :
    (of c r low high).lowOverflow = decide (low.start r.low = 0xFF) ∧
    (of c r low high).low.count =
      if low.start r.low = 0xFF then r.low.toUInt16 else low.start r.low + 1 := by
  have hahead : advanceLow c r low = ⟨low.start r.low + 1, low.nextClock⟩ := by
    rw [advanceLow_of_run hrun, hlong]
    rfl
  rw [lowOverflow_of, count_low_of, hahead, isOver_add_one hs, hlong, Bool.and_false]
  simp

theorem high_alone (hrun : c.highRun = true) (hh : high.count ≤ 0xFF) :
    (of c r low high).highOverflow = decide (high.count = 0xFF) ∧
    (of c r low high).high.count =
      if high.count = 0xFF then r.high.toUInt16 else high.count + 1 := by
  have hahead : advanceHigh c r high = ⟨high.count + 1, high.nextClock⟩ := by
    rw [advanceHigh, hrun, hlong]
    rfl
  rw [count_high_of, highOverflow_of, hlong, Bool.and_false, carryInto, if_neg Bool.false_ne_true,
    hahead, isOver_add_one hh]
  simp

end

/-! ## Long mode -/

section

variable (hlong : c.longMode = true)

include hlong

theorem lowOverflow_chained : (of c r low high).lowOverflow = false := by
  rw [lowOverflow_of, hlong]
  exact Bool.and_false _

variable (hlow : c.lowRun = true) (hs : low.start r.low ≤ 0xFF)

include hlow hs

/-- The high half moves when the low half ends. It then restarts from the cascade value, but from
its own when the high half ends too. -/
theorem chained (hhigh : c.highRun = true) (hh : high.count ≤ 0xFF) :
    (of c r low high).highOverflow = decide (low.start r.low = 0xFF ∧ high.count = 0xFF) ∧
    (of c r low high).low.count =
      (if low.start r.low = 0xFF then
        if high.count = 0xFF then r.low.toUInt16 else r.cascade.toUInt16
      else low.start r.low + 1) ∧
    (of c r low high).high.count =
      (if low.start r.low = 0xFF then
        if high.count = 0xFF then r.high.toUInt16 else high.count + 1
      else high.count) := by
  have hlowAhead : advanceLow c r low = ⟨low.start r.low + 1, low.nextClock⟩ := by
    rw [advanceLow_of_run hlow, hlong, hhigh]
    rfl
  have hhighAhead : advanceHigh c r high = ⟨high.count, high.nextClock⟩ := by
    rw [advanceHigh, hhigh, hlong]
    rfl
  rw [count_low_of, count_high_of, highOverflow_of, hlowAhead, hhighAhead, hlong, Bool.and_true,
    Bool.and_true, isOver_add_one hs, carryInto]
  by_cases hend : low.start r.low = 0xFF
  · simp only [hend, decide_true, if_true, isOver_add_one hh]
    by_cases hlast : high.count = 0xFF
    · simp [hlast]
    · simp [hlast]
  · simp [hend, isOver_of_le hh]

/-- The high half is set to its reload value at every clock, and still counts the end of the low
half in it. -/
theorem by_two (hhigh : c.highRun = false) :
    (advanceLow c r low).isOver = decide (0xFE ≤ low.start r.low) ∧
    (of c r low high).highOverflow = decide (0xFE ≤ low.start r.low ∧ r.high = 0xFF) ∧
    (of c r low high).low.count =
      (if 0xFE ≤ low.start r.low then (if r.high = 0xFF then r.low else r.cascade).toUInt16
      else low.start r.low + 2) ∧
    (of c r low high).high.count =
      (if 0xFE ≤ low.start r.low ∧ r.high ≠ 0xFF then r.high.toUInt16 + 1
      else r.high.toUInt16) := by
  have hlowAhead : advanceLow c r low = ⟨low.start r.low + 2, low.nextClock⟩ := by
    rw [advanceLow_of_run hlow, hlong, hhigh]
    rfl
  have hhighAhead : advanceHigh c r high = ⟨r.high.toUInt16, 0⟩ := by
    rw [advanceHigh, hhigh]
    rfl
  rw [count_low_of, count_high_of, highOverflow_of, hlowAhead, hhighAhead, hlong, Bool.and_true,
    Bool.and_true, isOver_add_two hs, carryInto]
  refine ⟨rfl, ?_⟩
  by_cases hend : 0xFE ≤ low.start r.low
  · simp only [hend, decide_true, if_true, isOver_add_one (toUInt16_le r.high), toUInt16_eq_last]
    by_cases hlast : r.high = 0xFF
    · simp [hlast]
    · simp [hlast]
  · simp [hend, isOver_of_le (toUInt16_le r.high)]

end

end Tick

end VisualMemory.Timer
