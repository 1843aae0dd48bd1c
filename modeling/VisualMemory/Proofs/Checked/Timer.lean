import VisualMemory.Proofs.Checked.Memory
import VisualMemory.Proofs.Timer.Sound

/-!
# Checked timers

A timer and its divider count in words that are wider than what they count to. Nothing can overflow,
provided that the counters start a clock as bytes: `stepTimer_eq`, for sound timers.
-/

namespace VisualMemory.Checked

open Interrupt (Controller)
open Timer (Control Half Layout Outcome Prescaler Reloads Signal Tick)

/-! ## Control bytes -/

def controlOf (b : UInt8) : Checked Control := do
  return {
    highRun := ← byteBit b 7
    lowRun := ← byteBit b 6
    longMode := ← byteBit b 5
    external := ← byteBit b 4
    highOverflow := ← byteBit b 3
    highIrqEnable := ← byteBit b 2
    lowOverflow := ← byteBit b 1
    lowIrqEnable := ← byteBit b 0 }

def controlByte (c : Control) : Checked UInt8 := do
  let value ← setByteBit 0 7 c.highRun
  let value ← setByteBit value 6 c.lowRun
  let value ← setByteBit value 5 c.longMode
  let value ← setByteBit value 4 c.external
  let value ← setByteBit value 3 c.highOverflow
  let value ← setByteBit value 2 c.highIrqEnable
  let value ← setByteBit value 1 c.lowOverflow
  setByteBit value 0 c.lowIrqEnable

theorem controlOf_eq (b : UInt8) : controlOf b = .ok (.ofByte b) := by
  simp only [controlOf, byteBit_eq b (by decide : (7 : UInt8) < 8),
    byteBit_eq b (by decide : (6 : UInt8) < 8), byteBit_eq b (by decide : (5 : UInt8) < 8),
    byteBit_eq b (by decide : (4 : UInt8) < 8), byteBit_eq b (by decide : (3 : UInt8) < 8),
    byteBit_eq b (by decide : (2 : UInt8) < 8), byteBit_eq b (by decide : (1 : UInt8) < 8),
    byteBit_eq b (by decide : (0 : UInt8) < 8), ok_bind, pure_eq_ok]
  rfl

theorem toByte_eq_setBit (c : Control) :
    c.toByte =
      ((((((((0 : UInt8).setBit 7 c.highRun).setBit 6 c.lowRun).setBit 5 c.longMode).setBit 4
        c.external).setBit 3 c.highOverflow).setBit 2 c.highIrqEnable).setBit 1
        c.lowOverflow).setBit 0 c.lowIrqEnable := by
  obtain ⟨c7, c6, c5, c4, c3, c2, c1, c0⟩ := c
  revert c7 c6 c5 c4 c3 c2 c1 c0
  decide +kernel

theorem controlByte_eq (c : Control) : controlByte c = .ok c.toByte := by
  simp only [controlByte, setByteBit_eq _ (by decide : (7 : UInt8) < 8),
    setByteBit_eq _ (by decide : (6 : UInt8) < 8), setByteBit_eq _ (by decide : (5 : UInt8) < 8),
    setByteBit_eq _ (by decide : (4 : UInt8) < 8), setByteBit_eq _ (by decide : (3 : UInt8) < 8),
    setByteBit_eq _ (by decide : (2 : UInt8) < 8), setByteBit_eq _ (by decide : (1 : UInt8) < 8),
    setByteBit_eq _ (by decide : (0 : UInt8) < 8), ok_bind]
  rw [toByte_eq_setBit]

/-! ## Counters -/

def stepPrescaler (p : Prescaler) (reload : UInt8) : Checked (Prescaler × Bool) := do
  let count ← add p.count 1
  return if count > 0xFF then (⟨reload.toUInt16⟩, true) else (⟨count⟩, false)

def advanceLow (c : Control) (r : Reloads) (low : Half) : Checked Half := do
  if c.lowRun then
    let start := if low.clocks = 0 then r.low.toUInt16 else low.count
    let count ← add start (if c.longMode && !c.highRun then 2 else 1)
    return { count, clocks := low.nextClock }
  else return .stopped r.low

def advanceHigh (c : Control) (r : Reloads) (high : Half) : Checked Half := do
  if c.highRun then
    let count ← if c.longMode then pure high.count else add high.count 1
    return { count, clocks := high.nextClock }
  else return .stopped r.high

def carryInto (carry : Bool) (h : Half) : Checked Half := do
  if carry then return { h with count := ← add h.count 1 } else return h

/-- One clock of both halves. -/
def tickHalves (c : Control) (r : Reloads) (low high : Half) : Checked Tick := do
  let ahead ← advanceLow c r low
  let lowOver := ahead.isOver
  let highAhead ← carryInto (lowOver && c.longMode) (← advanceHigh c r high)
  let highOver := highAhead.isOver
  return {
    low :=
      if highOver && c.longMode then ahead.restart r.low
      else if lowOver then ahead.restart (if c.longMode then r.cascade else r.low)
      else ahead
    high := if highOver then highAhead.restart r.high else highAhead
    started := if c.lowRun && low.clocks == 0 then some r.low else none
    lowOverflow := lowOver && !c.longMode
    highOverflow := highOver }

theorem stepPrescaler_eq {p : Prescaler} (h : p.count ≤ 0xFF) (reload : UInt8) :
    stepPrescaler p reload = .ok (p.step reload) := by
  have hle : p.count.toNat ≤ 255 := h
  have hlt : p.count.toNat + 1 < 0x10000 := by omega
  rw [stepPrescaler, addWord_eq hlt]
  rfl

theorem advanceLow_eq (c : Control) (r : Reloads) {low : Half} (h : low.count ≤ 0xFF) :
    advanceLow c r low = .ok (Tick.advanceLow c r low) := by
  unfold advanceLow Tick.advanceLow
  split
  · have hstart : (if low.clocks = 0 then r.low.toUInt16 else low.count).toNat ≤ 255 := by
      split
      · exact Timer.toUInt16_le r.low
      · exact h
    have hby : (if c.longMode && !c.highRun then 2 else 1 : UInt16).toNat ≤ 2 := by
      split <;> decide
    have hlt : (if low.clocks = 0 then r.low.toUInt16 else low.count).toNat +
        (if c.longMode && !c.highRun then 2 else 1 : UInt16).toNat < 0x10000 := by omega
    simp only [addWord_eq hlt, ok_bind, pure_eq_ok]
  · rfl

theorem advanceHigh_eq (c : Control) (r : Reloads) {high : Half} (h : high.count ≤ 0xFF) :
    advanceHigh c r high = .ok (Tick.advanceHigh c r high) := by
  have hle : high.count.toNat ≤ 255 := h
  have hlt : high.count.toNat + 1 < 0x10000 := by omega
  unfold advanceHigh Tick.advanceHigh
  rw [addWord_eq hlt]
  cases c.highRun <;> cases c.longMode <;> rfl

theorem count_advanceHigh_le (c : Control) (r : Reloads) {high : Half} (h : high.count ≤ 0xFF) :
    (Tick.advanceHigh c r high).count.toNat ≤ 256 := by
  have hle : high.count.toNat ≤ 255 := h
  unfold Tick.advanceHigh
  split
  · dsimp only
    split
    · omega
    · rw [UInt16.toNat_add]
      show (high.count.toNat + 1) % 2 ^ 16 ≤ 256
      omega
  · exact Nat.le_succ_of_le (Timer.toUInt16_le r.high)

theorem carryInto_eq (carry : Bool) {h : Half} (hle : h.count.toNat ≤ 256) :
    carryInto carry h = .ok (Tick.carryInto carry h) := by
  have hlt : h.count.toNat + 1 < 0x10000 := by omega
  unfold carryInto Tick.carryInto
  rw [addWord_eq hlt]
  cases carry <;> rfl

theorem tickHalves_eq (c : Control) (r : Reloads) {low high : Half} (hl : low.count ≤ 0xFF)
    (hh : high.count ≤ 0xFF) : tickHalves c r low high = .ok (Tick.of c r low high) := by
  rw [tickHalves, advanceLow_eq c r hl, ok_bind, advanceHigh_eq c r hh, ok_bind,
    carryInto_eq _ (count_advanceHigh_le c r hh)]
  rfl

/-! ## Timers -/

def signals (t : Timer) (c : Control) (k : Tick) : Checked (List Signal) := do
  let overflows :=
    (if k.lowOverflow then [.lowOverflow] else []) ++
    (if k.highOverflow then [.highOverflow] else [])
  if t.drivesBuzzer then
    match k.started with
    | some reload => return .period (← lowByte reload.toUInt16) :: .sound c.sounds :: overflows
    | none => return .sound c.sounds :: overflows
  else return overflows

def tickTimer (t : Timer) (ram : Ram) (interrupts : Controller) : Checked Outcome := do
  let c ← controlOf (← readRaw ram t.layout.control.toNat)
  let r : Reloads := {
    low := ← readRaw ram t.layout.lowReload.toNat
    high := ← readRaw ram t.layout.highReload.toNat
    cascade := ← readRaw ram t.layout.cascadeReload.toNat }
  let k ← tickHalves c r t.low t.high
  let heard ← signals t c k
  let interrupts ← (t.requests c k).foldlM raise interrupts
  let ram ← write ram t.layout.control.toNat (← controlByte (k.control c))
  let ram ← latchCounter ram t.layout.lowCounter (← lowByte k.low.count)
  let ram ← latchCounter ram t.layout.highCounter (← lowByte k.high.count)
  return { timer := { t with low := k.low, high := k.high }, ram, interrupts, signals := heard }

def stepTimer (t : Timer) (ram : Ram) (interrupts : Controller) : Checked Outcome := do
  match t.prescaler with
  | none => tickTimer t ram interrupts
  | some p =>
    let (p, fires) ← stepPrescaler p (← readRaw ram Register.t0prr.toNat)
    let t := { t with prescaler := some p }
    if fires then tickTimer t ram interrupts
    else return { timer := t, ram, interrupts, signals := [] }

theorem signals_eq (t : Timer) (c : Control) (k : Tick) :
    signals t c k = .ok (t.signals c k) := by
  unfold signals Timer.signals
  cases t.drivesBuzzer with
  | false => rfl
  | true =>
    cases k.started with
    | none => rfl
    | some reload =>
      simp only [lowByte_eq, UInt8.toUInt8_toUInt16]
      rfl

theorem tickTimer_eq {t : Timer} {layout : Layout} (hl : layout = .timer0 ∨ layout = .timer1)
    (h : t.Sound layout) (ram : Ram) (c : Controller) : tickTimer t ram c = .ok (t.tick ram c) := by
  obtain ⟨low, high, hlow, hhigh⟩ : ∃ low high,
      Ram.register? t.layout.lowCounter = some low ∧
      Ram.register? t.layout.highCounter = some high := by
    rw [h.layout_eq]
    rcases hl with rfl | rfl
    · exact ⟨0x12, 0x14, rfl, rfl⟩
    · exact ⟨0x1B, 0x1D, rfl, rfl⟩
  simp only [tickTimer, readRaw_eq, controlOf_eq, tickHalves_eq _ _ h.low_le h.high_le, signals_eq,
    foldlM_eq raise_eq, controlByte_eq, write_eq, lowByte_eq, latchCounter_eq _ hlow,
    latchCounter_eq _ hhigh, ok_bind, pure_eq_ok]
  rfl

/-- **A sound timer cannot fail.** -/
theorem stepTimer_eq {t : Timer} {layout : Layout} (hl : layout = .timer0 ∨ layout = .timer1)
    (h : t.Sound layout) (ram : Ram) (c : Controller) : stepTimer t ram c = .ok (t.step ram c) := by
  unfold stepTimer Timer.step
  cases hp : t.prescaler with
  | none => exact tickTimer_eq hl h ram c
  | some p =>
    have hnext : ({ t with prescaler := some (p.step (ram.readRaw Register.t0prr.toNat)).1 } :
        Timer).Sound layout := by
      refine ⟨h.layout_eq, h.low_le, h.high_le, ?_⟩
      rintro q ⟨⟩
      exact p.count_step_le _
    simp only [readRaw_eq, stepPrescaler_eq (h.prescaler_le p hp), ok_bind]
    split
    · exact tickTimer_eq hl hnext ram c
    · rfl

end VisualMemory.Checked
