import VisualMemory.Proofs.Program.Footprint

/-!
# What a register was last given

Most registers are used by no unit of the machine for itself. Such a register holds the byte that a
program or a front end last stored there, or zero if nobody has since the last reset.

* `Machine.store?`, `Machine.stored?`: what an instruction stores at its destination, and what of it
  goes to a register.
* `Ram.IsPlain`: the registers that nothing but a store or a reset writes to.
* `cell_perform`, `cell_processInstruction`, `cell_elapse`, `cell_poll`: such a register after each
  part of a step.
* `Act.written`, `Machine.written`: the bytes that a register has been given since the last reset.
* `Machine.Holds`: it holds the last of them. `Holds.act`, `Holds.runActs`: it keeps doing so.
-/

namespace VisualMemory

open Interrupt (Source Controller)

/-! ## Stores of instructions -/

namespace Machine

/-- The address that an instruction stores to, and the byte, given the two bytes behind its
opcode. -/
def store? (m : Machine) (raw low next : UInt8) : Instruction → Option (UInt16 × UInt8)
  | .st o | .xch o => some (m.operandCell raw low o, m.acc)
  | .mov .indirect => some (m.indirectAddress raw, low)
  | .mov _ => some (directAddress raw low, next)
  | .inc o => some (m.operandCell raw low o, m.register (m.operandCell raw low o) + 1)
  | .dec o | .dbnz o => some (m.operandCell raw low o, m.register (m.operandCell raw low o) - 1)
  | .pop => some (directAddress raw low, m.ram.readStack m.stackPointer)
  | .set1 =>
    let address := bitAddress raw low
    some (address, (m.register address).setBit (bitIndex raw) true)
  | .clr1 =>
    let address := bitAddress raw low
    some (address, (m.register address).setBit (bitIndex raw) false)
  | .not1 =>
    let address := bitAddress raw low
    some (address, (m.register address).flipBit (bitIndex raw))
  | .bpc =>
    let address := bitAddress raw low
    if m.testedBit raw low then some (address, (m.register address).setBit (bitIndex raw) false)
    else none
  | _ => none

/-- The byte that an instruction stores in a register, if it does. -/
def stored? (m : Machine) (o : Fin 128) (raw low next : UInt8) (i : Instruction) : Option UInt8 :=
  (m.store? raw low next i).bind fun (address, value) =>
    if m.ram.locate address.toNat = .register o then some value else none

theorem store?_congr {m n : Machine} (h : n.ram = m.ram) : n.store? = m.store? := by
  funext raw low next i
  cases i with
  | st o | mov o | xch o | inc o | dec o | dbnz o =>
    cases o <;> simp only [store?, operandCell, indirectAddress, psw, acc, register, h]
  | pop => simp only [store?, stackPointer, h]
  | set1 | clr1 | not1 => simp only [store?, register, h]
  | bpc =>
    simp only [store?, testedBit, register, h]
    rfl
  | _ => rfl

theorem stored?_congr {m n : Machine} (h : n.ram = m.ram) : n.stored? = m.stored? := by
  funext o raw low next i
  rw [stored?, stored?, store?_congr h, h]

end Machine

/-! ## Plain registers -/

/-- No instruction, service routine, timer or reset uses the register, by its offset, for itself. -/
def Ram.IsPlain (o : Fin 128) : Prop :=
  o.val ∉ [0x00, 0x01, 0x02, 0x03, 0x06, 0x07, 0x0D, 0x10, 0x18]

instance (o : Fin 128) : Decidable (Ram.IsPlain o) :=
  inferInstanceAs (Decidable (_ ∉ _))

namespace Ram.IsPlain

variable {o p : Fin 128} (h : IsPlain o)

include h

theorem ne (hp : ¬ IsPlain p) : p ≠ o := by
  rintro rfl
  exact hp h

theorem cell_setCell (hp : ¬ IsPlain p) (ram : Ram) (value : UInt8) :
    (ram.setCell (.register p) value).cell (.register o) = ram.cell (.register o) := by
  rw [Ram.cell_setCell, if_neg]
  intro heq
  exact h.ne hp (Cell.register.inj heq)

end Ram.IsPlain

theorem Instruction.not_isPlain {i : Instruction} {address : UInt16} (h : address ∈ i.registers)
    {o : Fin 128} (ho : Ram.register? address = some o) : ¬ Ram.IsPlain o := by
  have hsub : i.registers ⊆ [Register.acc, Register.psw, Register.b, Register.c, Register.sp] := by
    cases i <;> simp [registers]
  have hplace {a : UInt16} {p : Fin 128} (ha : Ram.register? a = some p) (heq : address = a)
      (hp : ¬ Ram.IsPlain p) : ¬ Ram.IsPlain o := by
    rw [heq, ha] at ho
    cases ho
    exact hp
  have hmem := hsub h
  simp only [List.mem_cons, List.not_mem_nil, or_false] at hmem
  rcases hmem with heq | heq | heq | heq | heq
  · exact hplace (p := 0x00) rfl heq (by decide)
  · exact hplace (p := 0x01) rfl heq (by decide)
  · exact hplace (p := 0x02) rfl heq (by decide)
  · exact hplace (p := 0x03) rfl heq (by decide)
  · exact hplace (p := 0x06) rfl heq (by decide)

namespace Machine

open Ram (IsPlain Cell)

theorem ram_branchIf (m : Machine) (taken : Bool) (target : UInt16) :
    (m.branchIf taken target).ram = m.ram := by
  unfold branchIf
  split
  · rfl
  · rfl

theorem cell_of_no_destination (m : Machine) (raw : UInt8) {i : Instruction} {o : Fin 128}
    (ho : IsPlain o) (hstf : i ≠ .stf) (hi : m.destination? raw m.fetch.2 i = none) :
    (m.perform raw i).ram.cell (.register o) = m.ram.cell (.register o) := by
  apply (writes_perform m raw hstf).ram
  intro hmem
  rcases mem_footprint hmem with hstack | hdest | ⟨address, ha, p, hp, heq⟩
  · obtain ⟨_, heq⟩ := Instruction.eq_main_of_mem_stackCells hstack
    cases heq
  · rw [destinationCell?, hi] at hdest
    cases hdest
  · obtain rfl := Cell.register.inj heq
    exact Instruction.not_isPlain ha hp ho

/-- A plain register after an instruction holds what was stored there, if anything was. -/
theorem cell_perform (m : Machine) (raw : UInt8) (i : Instruction) {o : Fin 128} (ho : IsPlain o) :
    (m.perform raw i).ram.cell (.register o) =
      (m.stored? o raw m.fetch.2 m.fetch.1.fetch.2 i).getD (m.ram.cell (.register o)) := by
  -- the store itself, behind fetches and what precedes it
  have hstore (n : Machine) (address : UInt16) (value : UInt8)
      (hlocate : n.ram.locate address.toNat = m.ram.locate address.toNat)
      (hcell : n.ram.cell (.register o) = m.ram.cell (.register o)) :
      (n.setRegister address value).ram.cell (.register o) =
        ((some (address, value)).bind fun (address, value) =>
          if m.ram.locate address.toNat = .register o then some value else none).getD
            (m.ram.cell (.register o)) := by
    show (n.ram.setCell (n.ram.locate address.toNat) value).cell (.register o) =
      (if m.ram.locate address.toNat = .register o then some value else none).getD _
    rw [Ram.cell_setCell, hlocate, hcell]
    split
    · rfl
    · rfl
  cases i with
  | stf => rfl
  | st o => cases o <;> exact hstore _ _ _ rfl rfl
  | mov o => cases o <;> exact hstore _ _ _ rfl rfl
  | inc o | dec o => cases o <;> exact hstore _ _ _ rfl rfl
  | set1 | clr1 | not1 => exact hstore _ _ _ rfl rfl
  | xch p =>
    cases p <;> exact (ho.cell_setCell (p := 0x00) (by decide) _ _).trans (hstore _ _ _ rfl rfl)
  | dbnz p =>
    cases p <;> exact (congrArg (Ram.cell · _) (ram_branchIf ..)).trans (hstore _ _ _ rfl rfl)
  | pop =>
    refine hstore _ _ _ (locate_pop _ _) ?_
    exact ho.cell_setCell (p := 0x06) (by decide) _ _
  | bpc =>
    let next := m.fetch.1.fetch.1
    let address := bitAddress raw m.fetch.2
    let value := (m.register address).setBit (bitIndex raw) false
    have hperform : m.perform raw .bpc = if m.testedBit raw m.fetch.2 then
        (next.setRegister address value).jump (next.cpu.pc.offset m.fetch.1.fetch.2)
      else next := rfl
    rw [hperform, stored?, store?]
    by_cases ht : m.testedBit raw m.fetch.2 = true
    · rw [if_pos ht, if_pos ht]
      exact hstore next address value rfl rfl
    · rw [if_neg ht, if_neg ht]
      rfl
  | _ => exact cell_of_no_destination m raw ho nofun rfl

/-! ## Parts of a step -/

/-- The byte that the next instruction stores in a register, if it does. -/
def nextStored? (m : Machine) (o : Fin 128) : Option UInt8 :=
  if m.isHalted then none
  else
    let program := m.programOf m.cpu.program.latest
    let p := m.cpu.pc
    m.stored? o (program p) (program (p + 1)) (program (p + 2)) (.decode (program p))

theorem cell_processInstruction (m : Machine) (noted : Bool) {o : Fin 128} (ho : IsPlain o) :
    (m.processInstruction noted).1.ram.cell (.register o) =
      (m.nextStored? o).getD (m.ram.cell (.register o)) := by
  cases h : m.isHalted with
  | true =>
    rw [processInstruction_of_halted noted h, nextStored?, h]
    rfl
  | false =>
    have hram := m.ram_fetchOpcode noted
    rw [processInstruction_eq noted h, nextStored?, h]
    show ((m.start.fetchOpcode noted).perform _ _).ram.cell _ = _
    rw [cell_perform _ _ _ ho, low_fetchOpcode, next_fetchOpcode, stored?_congr hram, hram]
    rfl

theorem cell_push (m : Machine) (value : UInt8) {o : Fin 128} (hsp : 0x06 ≠ o) :
    (m.push value).ram.cell (.register o) = m.ram.cell (.register o) := by
  refine ((Ram.cell_setCell ..).trans (if_neg fun h => hsp (Cell.register.inj h))).trans ?_
  exact (Ram.cell_setCell ..).trans (if_neg nofun)

theorem cell_enter (m : Machine) (s : Source) {o : Fin 128} (hsp : 0x06 ≠ o) (hpcon : 0x07 ≠ o) :
    (m.enter s).ram.cell (.register o) = m.ram.cell (.register o) := by
  refine ((Ram.cell_setCell ..).trans (if_neg fun h => hpcon (Cell.register.inj h))).trans ?_
  exact (cell_push _ _ hsp).trans (cell_push _ _ hsp)

theorem cell_reset_of_ne (m : Machine) {o : Fin 128} (hsp : 0x06 ≠ o) (hext : 0x0D ≠ o) :
    m.reset.ram.cell (.register o) = 0 := by
  refine ((Ram.cell_setCell ..).trans (if_neg fun h => hext (Cell.register.inj h))).trans ?_
  refine ((Ram.cell_setCell ..).trans (if_neg fun h => hsp (Cell.register.inj h))).trans ?_
  exact Ram.cell_resetRegisters m.ram o

theorem cell_reset (m : Machine) {o : Fin 128} (ho : IsPlain o) :
    m.reset.ram.cell (.register o) = 0 :=
  cell_reset_of_ne m (ho.ne (by decide)) (ho.ne (by decide))

/-- Apart from the stack pointer and the halt bit's register, only a reset changes registers in a
poll. -/
theorem cell_poll_of_ne {m : Machine} (hs : m.poll.2 ≠ some .reset) {o : Fin 128} (hsp : 0x06 ≠ o)
    (hpcon : 0x07 ≠ o) : m.poll.1.ram.cell (.register o) = m.ram.cell (.register o) := by
  rcases poll_fst_of_ne hs with hp | ⟨s, hp⟩
  · rw [hp]
    rfl
  · rw [hp]
    exact cell_enter _ s hsp hpcon

theorem cell_poll (m : Machine) {o : Fin 128} (ho : IsPlain o) :
    m.poll.1.ram.cell (.register o) =
      if m.poll.2 = some .reset then 0 else m.ram.cell (.register o) := by
  by_cases hs : m.poll.2 = some .reset
  · rw [if_pos hs, poll_fst_of_snd hs, serve_reset]
    exact cell_reset _ ho
  · rw [if_neg hs]
    exact cell_poll_of_ne hs (ho.ne (by decide)) (ho.ne (by decide))

end Machine

/-! ## Clocks -/

namespace Timer

variable {t : Timer} (hl : t.layout = .timer0 ∨ t.layout = .timer1) (ram : Ram) (c : Controller)
  {o : Fin 128} (ho : Ram.IsPlain o)

include hl ho

theorem cell_tick : (t.tick ram c).ram.cell (.register o) = ram.cell (.register o) := by
  simp only [tick, report]
  rw [Ram.cell_latchCounter, Ram.cell_latchCounter]
  rcases hl with hl | hl
  · rw [hl]
    exact ho.cell_setCell (p := 0x10) (by decide) ..
  · rw [hl]
    exact ho.cell_setCell (p := 0x18) (by decide) ..

theorem cell_step : (t.step ram c).ram.cell (.register o) = ram.cell (.register o) := by
  unfold step
  cases t.prescaler with
  | none => exact cell_tick hl ram c ho
  | some p =>
    dsimp only
    split
    · exact cell_tick (t := { t with prescaler := some _ }) hl ram c ho
    · rfl

end Timer

namespace Machine

open Ram (IsPlain)

section

variable {m : Machine} (h : m.Clocked) {o : Fin 128} (ho : IsPlain o)

include h ho

theorem cell_stepTimer0 : m.stepTimer0.ram.cell (.register o) = m.ram.cell (.register o) := by
  rw [stepTimer0, takeTimer0_ram]
  exact Timer.cell_step (.inl h.timer0.layout_eq) _ _ ho

theorem cell_stepTimer1 : m.stepTimer1.ram.cell (.register o) = m.ram.cell (.register o) := by
  rw [stepTimer1, takeTimer1_ram]
  exact Timer.cell_step (.inr h.timer1.layout_eq) _ _ ho

theorem cell_tickTimer0 : m.tickTimer0.ram.cell (.register o) = m.ram.cell (.register o) := by
  rw [tickTimer0, takeTimer0_ram]
  exact Timer.cell_tick (.inl h.timer0.layout_eq) _ _ ho

theorem cell_tickTimer1 : m.tickTimer1.ram.cell (.register o) = m.ram.cell (.register o) := by
  rw [tickTimer1, takeTimer1_ram]
  exact Timer.cell_tick (.inr h.timer1.layout_eq) _ _ ho

omit h in
theorem cell_elapse {m : Machine} (h : m.Clocked) (cycles : Nat) :
    (m.elapse cycles).ram.cell (.register o) = m.ram.cell (.register o) := by
  induction cycles generalizing m with
  | zero => rfl
  | succ cycles ih =>
    calc
      (m.stepTimer0.stepTimer1.elapse cycles).ram.cell (.register o)
        = m.stepTimer0.stepTimer1.ram.cell (.register o) := ih h.stepTimer0.stepTimer1
      _ = m.stepTimer0.ram.cell (.register o) := cell_stepTimer1 h.stepTimer0 ho
      _ = m.ram.cell (.register o) := cell_stepTimer0 h ho

end

/-! ## The bytes that were written -/

/-- The bytes since the last reset, after a poll. -/
def pollWritten (m : Machine) (written : List UInt8) : List UInt8 :=
  if m.poll.2 = some .reset then [] else written

def stepWritten (m : Machine) (o : Fin 128) (written : List UInt8) : List UInt8 :=
  m.advance.1.pollWritten (written ++ (m.nextStored? o).toList)

def stepsWritten (m : Machine) (o : Fin 128) (written : List UInt8) : Nat → List UInt8
  | 0 => written
  | steps + 1 => m.step.1.stepsWritten o (m.stepWritten o written) steps

end Machine

/-- The bytes that a register has been given since the last reset, after an act. -/
def Act.written (m : Machine) (o : Fin 128) (before : List UInt8) : Act → List UInt8
  | step => m.stepWritten o before
  | runFor cycles => m.stepsWritten o before (m.stepsFor cycles.toNat)
  | instruction _ => before ++ (m.nextStored? o).toList
  | execute raw => before ++ (m.stored? o raw m.fetch.2 m.fetch.1.fetch.2 (.decode raw)).toList
  | poll => m.pollWritten before
  | reset | directBoot _ | clearRegisters => []
  | writeRam address value =>
    if m.ram.locate address = .register o then before ++ [value] else before
  | _ => before

namespace Machine

open Ram (IsPlain)

def written (m : Machine) (o : Fin 128) (before : List UInt8) : List Act → List UInt8
  | [] => before
  | a :: acts => (a.run m).written o (a.written m o before) acts

/-- The register holds the last of the bytes, or zero if there are none. -/
def Holds (m : Machine) (o : Fin 128) (written : List UInt8) : Prop :=
  m.ram.cell (.register o) = written.getLast?.getD 0

namespace Holds

variable {m n : Machine} {o : Fin 128} {written : List UInt8} (h : m.Holds o written)

include h

theorem of_eq (hn : n.ram.cell (.register o) = m.ram.cell (.register o)) : n.Holds o written :=
  hn.trans h

theorem store (value : Option UInt8)
    (hn : n.ram.cell (.register o) = value.getD (m.ram.cell (.register o))) :
    n.Holds o (written ++ value.toList) := by
  rw [Holds, hn]
  cases value with
  | none =>
    rw [Option.toList_none, List.append_nil]
    exact h
  | some v =>
    rw [Option.toList_some, List.getLast?_concat]
    rfl

theorem poll (ho : IsPlain o) : m.poll.1.Holds o (m.pollWritten written) := by
  rw [Holds, cell_poll m ho, pollWritten]
  split
  · rfl
  · exact h

theorem step (ho : IsPlain o) (hc : m.Clocked) : m.step.1.Holds o (m.stepWritten o written) := by
  have hrun := h.store _ (cell_processInstruction m m.debug ho)
  have hclocked := hc.outside (runs_processInstruction m m.debug).outside
  have hadvance : m.advance.1.Holds o (written ++ (m.nextStored? o).toList) :=
    hrun.of_eq (cell_elapse ho hclocked _)
  exact hadvance.poll ho

theorem writeRam (address : Nat) (value : UInt8) :
    Holds { m with ram := m.ram.write address value } o
      (if m.ram.locate address = .register o then written ++ [value] else written) := by
  by_cases hl : m.ram.locate address = .register o
  · rw [if_pos hl]
    exact h.store (some value) ((Ram.cell_setCell ..).trans (if_pos hl))
  · rw [if_neg hl]
    exact h.of_eq ((Ram.cell_setCell ..).trans (if_neg hl))

omit h in
theorem runSteps {m : Machine} {written : List UInt8} (h : m.Holds o written) (ho : IsPlain o)
    (hc : m.Clocked) (elapsed steps : Nat) :
    (m.runSteps elapsed steps).1.Holds o (m.stepsWritten o written steps) := by
  induction steps generalizing m elapsed written with
  | zero => exact h
  | succ steps ih => exact ih (h.step ho hc) hc.step _

theorem act (ho : IsPlain o) (hc : m.Clocked) (a : Act) :
    (a.run m).Holds o (a.written m o written) := by
  cases a with
  | step => exact h.step ho hc
  | runFor cycles =>
    have hrun := h.runSteps ho hc 0 (m.stepsFor cycles.toNat)
    rwa [← runOn_eq_runSteps] at hrun
  | instruction noted => exact h.store _ (cell_processInstruction m noted ho)
  | execute raw => exact h.store _ (cell_perform m raw _ ho)
  | poll => exact h.poll ho
  | stepTimer0 => exact h.of_eq (cell_stepTimer0 hc ho)
  | stepTimer1 => exact h.of_eq (cell_stepTimer1 hc ho)
  | tickTimer0 => exact h.of_eq (cell_tickTimer0 hc ho)
  | tickTimer1 => exact h.of_eq (cell_tickTimer1 hc ho)
  | reset => exact cell_reset m ho
  | directBoot entry => exact cell_reset m ho
  | clearRegisters => exact Ram.cell_resetRegisters m.ram o
  | writeRam address value => exact h.writeRam address value
  | writeStack sp value =>
    have hne : ¬ Ram.stackCell sp = .register o := by
      intro heq
      cases heq
    exact h.of_eq ((Ram.cell_setCell ..).trans (if_neg hne))
  | writeProgram address value =>
    refine h.of_eq ?_
    rw [Act.run, writeProgram_eq]
  | _ => exact h

omit h in
theorem runActs {m : Machine} {written : List UInt8} (h : m.Holds o written) (ho : IsPlain o)
    (hc : m.Clocked) (acts : List Act) :
    (m.runActs acts).Holds o (m.written o written acts) := by
  induction acts generalizing m written with
  | nil => exact h
  | cons a acts ih => exact ih (h.act ho hc a) (hc.act a)

end Holds

theorem holds_boot {bios flash : Array UInt8} {config : Config} {journal : Journal} {m : Machine}
    (h : boot bios flash config journal = .ok m) {o : Fin 128} (ho : IsPlain o) : m.Holds o [] := by
  obtain ⟨rom, chip, -, -, rfl⟩ := boot_eq_ok h
  split
  · exact cell_reset _ ho
  · exact cell_reset _ ho

end Machine

end VisualMemory
