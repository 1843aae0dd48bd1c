import VisualMemory.Proofs.Program.Stack

/-!
# What one instruction can change in memory

The cells that an instruction can write are read off its bytes and the machine before it. Nothing
that the instruction writes on its way moves its destination to another bank: what comes before the
write to the destination is at most the stack pointer.

* `Instruction.registers`: the registers that an instruction uses as its result.
* `Machine.destination?`, `Instruction.stackCells`, `Machine.footprint`: all cells it can write.
* `Machine.Writes`: nothing but these cells changes; one lemma for each kind of write.
* `Machine.writes_perform`: an instruction stays within its footprint.
* `memory_frame`: what that says about each memory.
-/

namespace VisualMemory

open Ram (Cell)

/-! ## The cells that an instruction can write -/

/-- The registers that take results of an instruction besides its destination. -/
def Instruction.registers : Instruction → List UInt16
  | ld _ | xch _ | ldc | ldf | and _ | or _ | xor _ | rol | ror => [Register.acc]
  | add _ | addc _ | sub _ | subc _ | rolc | rorc => [Register.acc, Register.psw]
  | mul | div => [Register.acc, Register.psw, Register.b, Register.c]
  | be _ | bne _ => [Register.psw]
  | push | pop | call | callf | callr | ret | reti => [Register.sp]
  | _ => []

/-- The cells above the stack that an instruction fills, for a stack pointer. -/
def Instruction.stackCells (sp : UInt8) : Instruction → List Cell
  | push => [Ram.stackCell (sp + 1)]
  | call | callf | callr => [Ram.stackCell (sp + 1), Ram.stackCell (sp + 2)]
  | _ => []

namespace Machine

/-- The RAM address of an instruction's destination, if it has one. -/
def destination? (m : Machine) (raw low : UInt8) : Instruction → Option UInt16
  | .st o | .mov o | .xch o | .inc o | .dec o | .dbnz o => some (m.operandCell raw low o)
  | .pop => some (directAddress raw low)
  | .set1 | .clr1 | .not1 | .bpc => some (bitAddress raw low)
  | _ => none

def destinationCell? (m : Machine) (raw low : UInt8) (i : Instruction) : Option Cell :=
  (m.destination? raw low i).map (m.ram.locate ·.toNat)

/-- All cells that an instruction can write. -/
def footprint (m : Machine) (raw low : UInt8) (i : Instruction) : List Cell :=
  (m.destinationCell? raw low i).toList ++ i.stackCells m.stackPointer ++
    i.registers.filterMap fun address => (Ram.register? address).map .register

section

variable {m : Machine} {raw low : UInt8} {i : Instruction}

theorem destination_mem {address : UInt16} (h : m.destination? raw low i = some address) :
    m.ram.locate address.toNat ∈ m.footprint raw low i := by
  rw [footprint, destinationCell?, h]
  exact List.mem_append_left _ (List.mem_append_left _ (List.mem_singleton_self _))

theorem stackCell_mem {c : Cell} (h : c ∈ i.stackCells m.stackPointer) :
    c ∈ m.footprint raw low i :=
  List.mem_append_left _ (List.mem_append_right _ h)

theorem register_mem {address : UInt16} (h : address ∈ i.registers) {o : Fin 128}
    (ho : Ram.register? address = some o) : .register o ∈ m.footprint raw low i := by
  refine List.mem_append_right _ (List.mem_filterMap.mpr ⟨address, h, ?_⟩)
  rw [ho]
  rfl

end

theorem mem_footprint {m : Machine} {raw low : UInt8} {i : Instruction} {c : Cell}
    (h : c ∈ m.footprint raw low i) :
    c ∈ i.stackCells m.stackPointer ∨ m.destinationCell? raw low i = some c ∨
      ∃ address ∈ i.registers, ∃ o, Ram.register? address = some o ∧ c = .register o := by
  rcases List.mem_append.mp h with h | h
  · rcases List.mem_append.mp h with h | h
    · exact .inr (.inl (Option.mem_toList.mp h))
    · exact .inl h
  · obtain ⟨address, ha, h⟩ := List.mem_filterMap.mp h
    obtain ⟨o, ho, rfl⟩ := Option.map_eq_some_iff.mp h
    exact .inr (.inr ⟨address, ha, o, ho, rfl⟩)

/-! ## Writes -/

/-- `n` is `m` with at most other bytes in these RAM cells, as far as RAM and flash go. -/
structure Writes (cells : List Cell) (m n : Machine) : Prop where
  flash : n.flash = m.flash
  ram : ∀ c, c ∉ cells → n.ram.cell c = m.ram.cell c

namespace Writes

variable {m n k : Machine} {cells : List Cell}

theorem of_eq (hf : n.flash = m.flash) (hr : n.ram = m.ram) : Writes cells m n :=
  ⟨hf, fun _ _ => by rw [hr]⟩

theorem trans (h : Writes cells m n) (h' : Writes cells n k) : Writes cells m k :=
  ⟨h'.flash.trans h.flash, fun c hc => (h'.ram c hc).trans (h.ram c hc)⟩

theorem setCell {c : Cell} (hc : c ∈ cells) (value : UInt8) :
    Writes cells m { m with ram := m.ram.setCell c value } where
  flash := rfl
  ram := by
    intro d hd
    have hne : ¬ c = d := fun h => hd (h ▸ hc)
    exact (Ram.cell_setCell ..).trans (if_neg hne)

theorem setRegister (h : Writes cells m n) {address : UInt16}
    (hc : n.ram.locate address.toNat ∈ cells) (value : UInt8) :
    Writes cells m (n.setRegister address value) :=
  h.trans (setCell hc value)

theorem jump (h : Writes cells m n) (pc : UInt16) : Writes cells m (n.jump pc) :=
  ⟨h.flash, h.ram⟩

theorem branchIf (h : Writes cells m n) (taken : Bool) (target : UInt16) :
    Writes cells m (n.branchIf taken target) := by
  unfold Machine.branchIf
  split
  · exact h.jump target
  · exact h

theorem branchWhen (h : Writes cells m n) (test : Bool) : Writes cells m (n.branchWhen test) :=
  (h.jump _).branchIf test _

theorem push (h : Writes cells m n) (hc : Ram.stackCell (n.stackPointer + 1) ∈ cells)
    (hsp : .register 0x06 ∈ cells) (value : UInt8) : Writes cells m (n.push value) :=
  h.trans ((setCell hc value).trans (setCell hsp _))

theorem pop (h : Writes cells m n) (hsp : .register 0x06 ∈ cells) : Writes cells m n.pop.1 :=
  h.trans (setCell hsp _)

theorem callTo (h : Writes cells m n) (hc : Ram.stackCell (n.stackPointer + 1) ∈ cells)
    (hc' : Ram.stackCell (n.stackPointer + 2) ∈ cells) (hsp : .register 0x06 ∈ cells)
    (target : UInt16) : Writes cells m (n.callTo target) := by
  refine ((h.push hc hsp _).push ?_ hsp _).jump _
  rw [stackPointer_push, UInt8.add_assoc]
  exact hc'

theorem popAddress (h : Writes cells m n) (hsp : .register 0x06 ∈ cells) :
    Writes cells m n.popAddress.1 :=
  (h.pop hsp).pop hsp

theorem leave (h : Writes cells m n) (hsp : .register 0x06 ∈ cells) : Writes cells m n.leave := by
  have hpop := h.popAddress hsp
  cases hs : n.cpu.services with
  | nil => rw [leave_nil hs]; exact ⟨hpop.flash, hpop.ram⟩
  | cons r rest => rw [leave_cons hs]; exact ⟨hpop.flash, hpop.ram⟩

theorem setAcc (h : Writes cells m n) (hc : .register 0x00 ∈ cells) (value : UInt8) :
    Writes cells m (n.setAcc value) :=
  h.trans (setCell hc value)

theorem setFlag (h : Writes cells m n) (hc : .register 0x01 ∈ cells) (f : Flag) (on : Bool) :
    Writes cells m (n.setFlag f on) :=
  h.trans (setCell hc _)

theorem storeResult (h : Writes cells m n) (hacc : .register 0x00 ∈ cells)
    (hpsw : .register 0x01 ∈ cells) (r : Alu.Result) : Writes cells m (n.storeResult r) :=
  (h.setAcc hacc _).trans (setCell hpsw _)

theorem multiply (h : Writes cells m n) (hacc : .register 0x00 ∈ cells)
    (hpsw : .register 0x01 ∈ cells) (hb : .register 0x02 ∈ cells) (hc : .register 0x03 ∈ cells) :
    Writes cells m n.multiply := by
  refine (setFlag ?_ hpsw _ _).setFlag hpsw _ _
  exact ((h.trans (setCell hb _)).setAcc hacc _).trans (setCell hc _)

theorem divide (h : Writes cells m n) (hacc : .register 0x00 ∈ cells)
    (hpsw : .register 0x01 ∈ cells) (hb : .register 0x02 ∈ cells) (hc : .register 0x03 ∈ cells) :
    Writes cells m n.divide := by
  simp only [Machine.divide]
  refine setFlag ?_ hpsw _ _
  split
  · exact ((h.setAcc hacc _).trans (setCell hb _)).setFlag hpsw _ _
  · exact (((h.setAcc hacc _).trans (setCell hc _)).trans (setCell hb _)).setFlag hpsw _ _

end Writes

/-! ## Instructions -/

theorem locate_pop (m : Machine) (address : Nat) :
    m.pop.1.ram.locate address = m.ram.locate address := by
  have hpsw (v : UInt8) : (m.ram.registers.set 0x06 v)[0x01] = m.ram.registers[0x01] :=
    Vector.getElem_set_ne _ _ (by decide)
  have hxbnk (v : UInt8) : (m.ram.registers.set 0x06 v)[0x25] = m.ram.registers[0x25] :=
    Vector.getElem_set_ne _ _ (by decide)
  show Ram.locate { m.ram with registers := m.ram.registers.set 0x06 _ } address = _
  simp only [Ram.locate, Ram.mainBank, Ram.xramBank, hpsw, hxbnk]

section

variable (m : Machine) (raw : UInt8) {cells : List Cell}

theorem writes_operandValue (o : Operand) : Writes cells m (m.operandValue raw o).1 := by
  cases o <;> exact .of_eq rfl rfl

theorem writes_fetchCompared (o : Operand) : Writes cells m (m.fetchCompared raw o).1 := by
  cases o <;> exact .of_eq rfl rfl

end

/-- An instruction other than a store to flash stays within its footprint. -/
theorem writes_perform (m : Machine) (raw : UInt8) {i : Instruction} (hstf : i ≠ .stf) :
    Writes (m.footprint raw m.fetch.2 i) m (m.perform raw i) := by
  have hacc (h : Register.acc ∈ i.registers) : .register 0x00 ∈ m.footprint raw m.fetch.2 i :=
    register_mem h rfl
  have hpsw (h : Register.psw ∈ i.registers) : .register 0x01 ∈ m.footprint raw m.fetch.2 i :=
    register_mem h rfl
  have hb (h : Register.b ∈ i.registers) : .register 0x02 ∈ m.footprint raw m.fetch.2 i :=
    register_mem h rfl
  have hc (h : Register.c ∈ i.registers) : .register 0x03 ∈ m.footprint raw m.fetch.2 i :=
    register_mem h rfl
  have hsp (h : Register.sp ∈ i.registers) : .register 0x06 ∈ m.footprint raw m.fetch.2 i :=
    register_mem h rfl
  have hstart : Writes (m.footprint raw m.fetch.2 i) m m := .of_eq rfl rfl
  have hfetch : Writes (m.footprint raw m.fetch.2 i) m m.fetch.1 := .of_eq rfl rfl
  have htwice : Writes (m.footprint raw m.fetch.2 i) m m.fetch.1.fetch.1 := .of_eq rfl rfl
  -- An operand in a cell that a register points to has no byte of its own, so in the cases of an
  -- operand the write comes one fetch earlier there.
  cases i with
  | stf => exact absurd rfl hstf
  | nop => exact hstart
  | ldc | ldf | rol | ror => exact hstart.setAcc (hacc (by decide)) _
  | rolc | rorc => exact (hstart.setAcc (hacc (by decide)) _).setFlag (hpsw (by decide)) _ _
  | mul =>
    exact hstart.multiply (hacc (by decide)) (hpsw (by decide)) (hb (by decide))
      (hc (by decide))
  | div =>
    exact hstart.divide (hacc (by decide)) (hpsw (by decide)) (hb (by decide))
      (hc (by decide))
  | ld o => exact (writes_operandValue m raw o).setAcc (hacc (by simp [Instruction.registers])) _
  | and o => exact (writes_operandValue m raw o).setAcc (hacc (by simp [Instruction.registers])) _
  | or o => exact (writes_operandValue m raw o).setAcc (hacc (by simp [Instruction.registers])) _
  | xor o => exact (writes_operandValue m raw o).setAcc (hacc (by simp [Instruction.registers])) _
  | add o | addc o | sub o | subc o =>
    exact (writes_operandValue m raw o).storeResult (hacc (by simp [Instruction.registers]))
      (hpsw (by simp [Instruction.registers])) _
  | st o =>
    cases o with
    | indirect => exact hstart.setRegister (destination_mem rfl) _
    | _ => exact hfetch.setRegister (destination_mem rfl) _
  | mov o =>
    cases o with
    | indirect => exact hfetch.setRegister (destination_mem rfl) _
    | _ => exact htwice.setRegister (destination_mem rfl) _
  | xch o =>
    cases o with
    | indirect => exact (hstart.setRegister (destination_mem rfl) _).setAcc (hacc (by decide)) _
    | _ => exact (hfetch.setRegister (destination_mem rfl) _).setAcc (hacc (by decide)) _
  | inc o | dec o =>
    cases o with
    | indirect => exact hstart.setRegister (destination_mem rfl) _
    | _ => exact hfetch.setRegister (destination_mem rfl) _
  | dbnz o =>
    cases o with
    | indirect => exact (hfetch.setRegister (destination_mem rfl) _).branchIf _ _
    | _ => exact (htwice.setRegister (destination_mem rfl) _).branchIf _ _
  | set1 | clr1 | not1 => exact hfetch.setRegister (destination_mem rfl) _
  | bpc =>
    simp only [perform, bitBranchClear]
    split
    · exact (htwice.setRegister (destination_mem rfl) _).jump _
    · exact htwice
  | push =>
    exact hfetch.push (stackCell_mem (List.mem_singleton_self _)) (hsp (by decide)) _
  | pop =>
    refine (hfetch.pop (hsp (by decide))).setRegister ?_ _
    rw [locate_pop]
    exact destination_mem rfl
  | br | bz | bnz => exact hstart.branchWhen _
  | bp | bn => exact htwice.branchIf _ _
  | be o | bne o =>
    refine (Writes.setFlag ?_ (hpsw (by simp [Instruction.registers])) _ _).branchIf _ _
    exact (writes_fetchCompared m raw o).jump _
  | brf | jmpf => exact htwice.jump _
  | jmp => exact hfetch.jump _
  | call =>
    exact hfetch.callTo (stackCell_mem (List.mem_cons_self ..))
      (stackCell_mem (List.mem_cons_of_mem _ (List.mem_cons_self ..))) (hsp (by decide)) _
  | callf | callr =>
    exact htwice.callTo (stackCell_mem (List.mem_cons_self ..))
      (stackCell_mem (List.mem_cons_of_mem _ (List.mem_cons_self ..))) (hsp (by decide)) _
  | ret => exact (hstart.popAddress (hsp (by decide))).jump _
  | reti => exact hstart.leave (hsp (by decide))

/-! ## Whole instructions -/

theorem destination?_congr {m n : Machine} (h : n.ram = m.ram) :
    n.destination? = m.destination? := by
  funext raw low i
  cases i with
  | st o | mov o | xch o | inc o | dec o | dbnz o =>
    cases o <;> simp only [destination?, operandCell, indirectAddress, psw, register, h]
  | _ => rfl

theorem footprint_congr {m n : Machine} (h : n.ram = m.ram) : n.footprint = m.footprint := by
  funext raw low i
  simp only [footprint, destinationCell?, stackPointer, destination?_congr h, h]

section

variable {m : Machine} (noted : Bool) (h : m.isHalted = false)

include h

theorem writes_processInstruction :
    let raw := m.programOf m.cpu.program.latest m.cpu.pc
    let low := m.programOf m.cpu.program.latest (m.cpu.pc + 1)
    Instruction.decode raw ≠ .stf →
      Writes (m.footprint raw low (.decode raw)) m (m.processInstruction noted).1 := by
  intro raw low hstf
  have hram := m.ram_fetchOpcode noted
  have hflash : (m.start.fetchOpcode noted).flash = m.flash := by rw [fetchOpcode_eq]; rfl
  have hperform := writes_perform (m.start.fetchOpcode noted) raw hstf
  rw [footprint_congr hram, low_fetchOpcode] at hperform
  rw [processInstruction_eq noted h]
  exact (Writes.of_eq hflash hram).trans ⟨hperform.flash, hperform.ram⟩

theorem processInstruction_stf
    (hstf : Instruction.decode (m.programOf m.cpu.program.latest m.cpu.pc) = .stf) :
    (m.processInstruction noted).1.ram = m.ram ∧
      (m.processInstruction noted).1.flash =
        m.flash.writeBanked (m.register Register.fpr) m.tableAddress m.acc := by
  rw [processInstruction_eq noted h, hstf, fetchOpcode_eq]
  exact ⟨rfl, rfl⟩

end

theorem flash_poll (m : Machine) : m.poll.1.flash = m.flash := by
  rcases poll_fst m with hp | hp | ⟨s, hp⟩
  · rw [hp]
    rfl
  · rw [hp]
    rfl
  · rw [hp]
    rfl

theorem flash_step {m : Machine} (h : m.isHalted = false)
    (hstf : Instruction.decode (m.programOf m.cpu.program.latest m.cpu.pc) ≠ .stf) :
    m.step.1.flash = m.flash := by
  show m.advance.1.poll.1.flash = m.flash
  rw [flash_poll]
  exact (passes_elapse ..).flash.trans (writes_processInstruction m.debug h hstf).flash

end Machine

/-! ## Banks -/

theorem Instruction.eq_main_of_mem_stackCells {sp : UInt8} {i : Instruction} {c : Cell}
    (h : c ∈ i.stackCells sp) : ∃ o, c = .main 0 o := by
  cases i with
  | push =>
    rw [List.mem_singleton.mp h]
    exact ⟨_, rfl⟩
  | call | callf | callr =>
    rcases List.mem_cons.mp h with rfl | h
    · exact ⟨_, rfl⟩
    · rw [List.mem_singleton.mp h]
      exact ⟨_, rfl⟩
  | _ => cases h

theorem Ram.eq_mainBank_of_locate {ram : Ram} {address : Nat} {bank : Fin 2} {o : Fin 256}
    (h : ram.locate address = .main bank o) : bank = ram.mainBank := by
  unfold locate at h
  dsimp only at h
  split at h
  · cases h
    rfl
  · split at h <;> cases h

theorem Ram.eq_xramBank_of_locate {ram : Ram} {address : Nat} {bank : Fin 3} {o : Fin 128}
    (h : ram.locate address = .xram bank o) : bank = ram.xramBank := by
  unfold locate at h
  dsimp only at h
  split at h
  · cases h
  · split at h
    · cases h
    · cases h
      rfl

theorem Flash.eq_of_writeBanked_ne {flash : Flash} {bank : UInt8} {offset : UInt16} {value : UInt8}
    {k : Fin 0x20000} (h : (flash.writeBanked bank offset value).bytes.get k ≠ flash.bytes.get k) :
    k.val = bankedAddress bank offset := by
  have hlt : bankedAddress bank offset < size := by
    have hbank : (bank &&& 1).toNat ≤ 1 := by
      rw [UInt8.toNat_and]
      exact Nat.and_le_right
    have hoffset := offset.toNat_lt
    simp only [bankedAddress, size]
    omega
  have hplace : (place (bankedAddress bank offset)).val = bankedAddress bank offset :=
    Nat.mod_eq_of_lt hlt
  rw [← hplace]
  exact Decidable.byContradiction fun hne =>
    h (Vector.getElem_set_ne (place _).isLt k.isLt fun heq => hne heq.symm)

namespace Machine

section

variable {m : Machine} {raw low : UInt8} {i : Instruction}

/-- A destination lies in the banks that are selected before the instruction. -/
theorem mainBank_of_destination {bank : Fin 2} {o : Fin 256}
    (h : m.destinationCell? raw low i = some (.main bank o)) : bank = m.ram.mainBank := by
  obtain ⟨address, -, ha⟩ := Option.map_eq_some_iff.mp h
  exact Ram.eq_mainBank_of_locate ha

theorem xramBank_of_destination {bank : Fin 3} {o : Fin 128}
    (h : m.destinationCell? raw low i = some (.xram bank o)) : bank = m.ram.xramBank := by
  obtain ⟨address, -, ha⟩ := Option.map_eq_some_iff.mp h
  exact Ram.eq_xramBank_of_locate ha

end

namespace Clocked

variable {m : Machine} (h : m.Clocked)

include h

theorem ramBank_eq : m.psw.ramBank = m.ram.mainBank :=
  congrArg (fun b => (Psw.mk b).ramBank)
    (h.latches.read_eq_cell (show ¬ Ram.IsCounter 0x01 by decide))

theorem xramBank_eq : (m.register Register.xbnk).toNat % 3 = m.ram.xramBank.val :=
  congrArg (UInt8.toNat · % 3) (h.latches.read_eq_cell (show ¬ Ram.IsCounter 0x25 by decide))

end Clocked

/-! ## Changes -/

section

variable {m : Machine} (noted : Bool) (h : m.isHalted = false)

include h

theorem mem_footprint_of_ne {c : Cell}
    (hne : (m.processInstruction noted).1.ram.cell c ≠ m.ram.cell c) :
    c ∈ m.footprint (m.programOf m.cpu.program.latest m.cpu.pc)
      (m.programOf m.cpu.program.latest (m.cpu.pc + 1))
      (.decode (m.programOf m.cpu.program.latest m.cpu.pc)) := by
  by_cases hstf : Instruction.decode (m.programOf m.cpu.program.latest m.cpu.pc) = .stf
  · rw [(processInstruction_stf noted h hstf).1] at hne
    exact absurd rfl hne
  · exact Decidable.byContradiction fun hn =>
      hne ((writes_processInstruction noted h hstf).ram c hn)

theorem stf_of_ne {k : Fin 0x20000}
    (hne : (m.processInstruction noted).1.flash.bytes.get k ≠ m.flash.bytes.get k) :
    Instruction.decode (m.programOf m.cpu.program.latest m.cpu.pc) = .stf ∧
      k.val = Flash.bankedAddress (m.register Register.fpr) m.tableAddress := by
  by_cases hstf : Instruction.decode (m.programOf m.cpu.program.latest m.cpu.pc) = .stf
  · refine ⟨hstf, ?_⟩
    rw [(processInstruction_stf noted h hstf).2] at hne
    exact Flash.eq_of_writeBanked_ne hne
  · rw [(writes_processInstruction noted h hstf).flash] at hne
    exact absurd rfl hne

end

end Machine

open Machine in
/-- **What one instruction can change in memory.** An instruction of a reachable machine changes no
byte of ROM, no latch and nothing in the interrupt controller. In flash it changes at most the byte
that the table pointer and the flash bank register name, and only if it is a store to flash. In XRAM
it stays in the bank that is selected before it, and so it does in main RAM but for what it pushes,
which goes to bank 0. All in all a cell that changes is one that it pushes to, or its one
destination, or a register that it has its result in. -/
theorem memory_frame {m : Machine} (hr : Reachable m) (h : m.isHalted = false) (noted : Bool) :
    let raw := m.programOf m.cpu.program.latest m.cpu.pc
    let low := m.programOf m.cpu.program.latest (m.cpu.pc + 1)
    let i := Instruction.decode raw
    let destination := m.destinationCell? raw low i
    let stack := i.stackCells (m.register Register.sp)
    let n := (m.processInstruction noted).1
    n.rom = m.rom ∧ n.ram.latches = m.ram.latches ∧ n.interrupts = m.interrupts ∧
    (∀ k : Fin 0x20000, n.flash.bytes.get k ≠ m.flash.bytes.get k →
      i = .stf ∧ k.val = Flash.bankedAddress (m.register Register.fpr) m.tableAddress) ∧
    (∀ bank o, n.ram.cell (.xram bank o) ≠ m.ram.cell (.xram bank o) →
      bank.val = (m.register Register.xbnk).toNat % 3) ∧
    (∀ bank o, n.ram.cell (.main bank o) ≠ m.ram.cell (.main bank o) →
      bank = m.psw.ramBank ∨ bank = 0 ∧ .main bank o ∈ stack) ∧
    (∀ c, n.ram.cell c ≠ m.ram.cell c →
      c ∈ stack ∨ destination = some c ∨
        ∃ address ∈ i.registers, ∃ o, Ram.register? address = some o ∧ c = .register o) := by
  intro raw low i destination stack n
  have hc := hr.clocked
  have hout := (runs_processInstruction m noted).outside
  have hcells (c : Cell) (hne : n.ram.cell c ≠ m.ram.cell c) :
      c ∈ stack ∨ destination = some c ∨
        ∃ address ∈ i.registers, ∃ o, Ram.register? address = some o ∧ c = .register o := by
    have hstack : stack = i.stackCells m.stackPointer := by
      show i.stackCells (m.register Register.sp) = _
      rw [hc.stackPointer_eq]
    rw [hstack]
    exact mem_footprint (mem_footprint_of_ne noted h hne)
  refine ⟨hout.rom, hout.latches, hout.interrupts, ?_, ?_, ?_, hcells⟩
  · intro k hne
    exact stf_of_ne noted h hne
  · intro bank o hne
    rcases hcells _ hne with hs | hd | ⟨_, -, o', -, ho⟩
    · obtain ⟨o', ho⟩ := Instruction.eq_main_of_mem_stackCells hs
      cases ho
    · rw [hc.xramBank_eq, xramBank_of_destination hd]
    · cases ho
  · intro bank o hne
    rcases hcells _ hne with hs | hd | ⟨_, -, o', -, ho⟩
    · obtain ⟨o', ho⟩ := Instruction.eq_main_of_mem_stackCells hs
      cases ho
      exact .inr ⟨rfl, hs⟩
    · rw [hc.ramBank_eq]
      exact .inl (mainBank_of_destination hd)
    · cases ho

/-- A firmware that pushes the first byte of main RAM, while bank 1 of it is in use. -/
def pushingFromBankOne : Machine :=
  (Machine.cold #[0x60, 0x00] (by decide)).runActs [.writeRam 0x101 0x02, .writeRam 0x000 0x5A]

theorem memory_frame_push :
    let n := (pushingFromBankOne.processInstruction false).1
    pushingFromBankOne.psw.ramBank = 1 ∧
      n.ram.cell (.main 0 0x80) ≠ pushingFromBankOne.ram.cell (.main 0 0x80) ∧
      .main 0 0x80 ∈ Instruction.push.stackCells (pushingFromBankOne.register Register.sp) := by
  intro n
  have hr : Reachable pushingFromBankOne := (Reachable.cold (by decide) _).runActs _
  have h : pushingFromBankOne.isHalted = false := by decide +kernel
  have hbank : pushingFromBankOne.psw.ramBank = 1 := by decide +kernel
  have hne : n.ram.cell (.main 0 0x80) ≠ pushingFromBankOne.ram.cell (.main 0 0x80) := by
    decide +kernel
  refine ⟨hbank, hne, ?_⟩
  rcases (memory_frame hr h false).2.2.2.2.2.1 0 0x80 hne with hmain | ⟨-, hmem⟩
  · rw [hbank] at hmain
    cases hmain
  · have hraw : pushingFromBankOne.programOf pushingFromBankOne.cpu.program.latest
        pushingFromBankOne.cpu.pc = 0x60 := by decide +kernel
    rw [hraw] at hmem
    exact hmem

end VisualMemory
