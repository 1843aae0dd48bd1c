import VisualMemory.Proofs.Program.Footprint

/-!
# Indirect operands are direct ones

An instruction that finds its operand through an indirect register does what the direct form does on
the address in that register. The direct form has one byte more, the address itself; so the two are
compared at two places, in programs that may differ in everything else.

* `Instruction.direct?`: the direct form of an instruction with an indirect operand.
* `indirectAddress_eq_cell`: where the address is found.
* `Machine.elsewhere`: a machine that is the same but for its program and its place there.
* `perform_direct`: the two forms behind their opcodes.
* `indirect_eq_direct`: the two forms.
-/

namespace VisualMemory

/-- The direct form of an instruction that finds its one operand through an indirect register. -/
def Instruction.direct? : Instruction → Option Instruction
  | ld .indirect => some (ld .direct)
  | st .indirect => some (st .direct)
  | mov .indirect => some (mov .direct)
  | xch .indirect => some (xch .direct)
  | add .indirect => some (add .direct)
  | addc .indirect => some (addc .direct)
  | sub .indirect => some (sub .direct)
  | subc .indirect => some (subc .direct)
  | inc .indirect => some (inc .direct)
  | dec .indirect => some (dec .direct)
  | dbnz .indirect => some (dbnz .direct)
  | and .indirect => some (and .direct)
  | or .indirect => some (or .direct)
  | xor .indirect => some (xor .direct)
  | _ => none

theorem Instruction.cycles_direct {i i' : Instruction} (h : i.direct? = some i') :
    i'.cycles = i.cycles := by
  cases i with
  | ld o | st o | mov o | xch o | add o | addc o | sub o | subc o | inc o | dec o | dbnz o | and o
  | or o | xor o =>
    cases o with
    | indirect => cases h; rfl
    | _ => cases h
  | _ => cases h

/-! ## The address -/

theorem directAddress_eq {raw low : UInt8} {a : UInt16} (hhigh : raw &&& 0x01 = a.highByte)
    (hlow : low = a.lowByte) : directAddress raw low = a := by
  show UInt16.ofBytes (raw &&& 0x01) low = a
  rw [hhigh, hlow, UInt16.ofBytes_highByte_lowByte]

namespace Machine

/-- The address in an indirect register is the byte in one of the first sixteen cells of the bank in
use, and lies among the registers for the upper two of a group. -/
theorem indirectAddress_eq_cell (m : Machine) (raw : UInt8) :
    let j := raw &&& 0x03
    let pointer := m.ram.cell (.main m.ram.mainBank
      (.ofNat 256 (4 * m.psw.indirectBank.toNat + j.toNat)))
    m.indirectAddress raw = pointer.toUInt16 + if 2 ≤ j then 0x100 else 0 := by
  intro j pointer
  have hbank : m.psw.indirectBank.toNat ≤ 3 := by
    rw [Psw.indirectBank, UInt8.toNat_and]
    exact Nat.and_le_right
  have hj : j.toNat ≤ 3 := by
    rw [UInt8.toNat_and]
    exact Nat.and_le_right
  have hplace : (m.psw.indirectBank * 4 + j).toUInt16.toNat =
      4 * m.psw.indirectBank.toNat + j.toNat := by
    rw [UInt8.toNat_toUInt16, UInt8.toNat_add, UInt8.toNat_mul]
    show (m.psw.indirectBank.toNat * 4 % 256 + j.toNat) % 256 = _
    omega
  have hpointer : m.register (m.psw.indirectBank * 4 + j).toUInt16 = pointer := by
    rw [register, hplace]
    exact m.ram.read_main (by omega)
  have hpage : ∀ b : UInt8,
      (b &&& 0x03 &&& 0x02).toUInt16 <<< 7 = if 2 ≤ b &&& 0x03 then 0x100 else 0 :=
    forall_byte (by decide +kernel)
  have hlow : ∀ b : UInt8, b.toUInt16 ||| 0x100 = b.toUInt16 + 0x100 :=
    forall_byte (by decide +kernel)
  show (m.register _).toUInt16 ||| _ = _
  rw [hpointer, hpage raw]
  split
  · exact hlow pointer
  · exact UInt16.or_zero.trans (UInt16.add_zero _).symm

/-! ## Another place -/

/-- The machine further on in another program. -/
def elsewhere (m : Machine) (distance : UInt16) (rom : Rom) (flash : Flash) (journal : Journal) :
    Machine :=
  { m with cpu := { m.cpu with pc := m.cpu.pc + distance }, rom, flash, journal }

section

variable (m : Machine) (distance : UInt16) (rom : Rom) (flash : Flash) (journal : Journal)

theorem fetch_elsewhere : (m.elsewhere distance rom flash journal).fetch.1 =
    m.fetch.1.elsewhere distance rom flash journal := by
  have hpc : m.cpu.pc + distance + 1 = m.cpu.pc + 1 + distance := by grind
  show (m.elsewhere distance rom flash journal).jump (m.cpu.pc + distance + 1) = _
  rw [hpc]
  rfl

theorem offset_elsewhere (displacement : UInt8) :
    (m.elsewhere distance rom flash journal).cpu.pc.offset displacement =
      m.cpu.pc.offset displacement + distance := by
  show (m.cpu.pc + distance).offset displacement = _
  rw [offset_eq, offset_eq]
  grind

theorem branchIf_elsewhere (taken : Bool) (target : UInt16) :
    (m.elsewhere distance rom flash journal).branchIf taken (target + distance) =
      (m.branchIf taken target).elsewhere distance rom flash journal := by
  cases taken <;> rfl

/-- An instruction with an indirect operand does at another place what its direct form does there
with the address behind its opcode, if the rest of the operands is the same. -/
theorem perform_direct {k : Machine} {raw raw' : UInt8} {i i' : Instruction}
    (hform : i.direct? = some i')
    (hfetch : k.fetch.1 = m.elsewhere distance rom flash journal)
    (haddress : directAddress raw' k.fetch.2 = m.indirectAddress raw)
    (hrest : i = .mov .indirect ∨ i = .dbnz .indirect → k.fetch.1.fetch.2 = m.fetch.2) :
    k.perform raw' i' = (m.perform raw i).elsewhere distance rom flash journal := by
  have hoperand : k.operandAddress raw' .direct =
      (m.elsewhere distance rom flash journal, m.indirectAddress raw) := Prod.ext hfetch haddress
  have hram : k.ram = m.ram := by
    show k.fetch.1.ram = m.ram
    rw [hfetch]
    rfl
  have hcarry : k.flag .carry = m.flag .carry := by rw [flag, psw, register, hram]; rfl
  cases i with
  | ld o | st o | xch o | add o | addc o | sub o | subc o | inc o | dec o | and o | or o | xor o =>
    cases o <;> cases hform
    simp only [perform, operandValue, combine, calculate, modifyOperand, hoperand, hcarry]
    rfl
  | mov o =>
    cases o <;> cases hform
    rw [hfetch] at hrest
    simp only [perform, hoperand]
    rw [fetch_elsewhere, hrest (.inl rfl)]
    rfl
  | dbnz o =>
    cases o <;> cases hform
    rw [hfetch] at hrest
    simp only [perform, countdown, hoperand, fetchNear]
    rw [fetch_elsewhere, hrest (.inr rfl), offset_elsewhere]
    exact branchIf_elsewhere (m.fetch.1.setRegister _ _) ..
  | _ => cases hform

end

theorem fetch_fetchOpcode_elsewhere (m : Machine) (noted : Bool) (start : UInt16) (rom : Rom)
    (flash : Flash) :
    let k := Machine.fetchOpcode { m.start.jump start with rom, flash } noted
    k.fetch.1 =
      (m.start.fetchOpcode noted).elsewhere (start - m.cpu.pc + 1) rom flash k.journal := by
  intro k
  have hpc : start + 1 + 1 = m.cpu.pc + 1 + (start - m.cpu.pc + 1) := by grind
  have hk : k = _ := fetchOpcode_eq { m.start.jump start with rom, flash } noted
  rw [elsewhere, fetchOpcode_eq m.start noted]
  show k.jump (k.cpu.pc + 1) = _
  rw [hk]
  dsimp only [jump, Machine.start]
  rw [hpc]

end Machine

/-- **Indirect operands are direct ones.** Take an instruction with an indirect operand, and its
direct form at some place of another program, with the address that the indirect register holds
behind its opcode and then whatever follows the opcode of the first. From the same state both leave
the same machine, but that the second has come one byte further from its start; neither changes the
flash. -/
theorem indirect_eq_direct {m : Machine} (h : m.isHalted = false) (noted : Bool) (start : UInt16)
    (rom : Rom) (flash : Flash) :
    let m' : Machine := { m.jump start with rom, flash }
    let program := m.programOf m.cpu.program.latest
    let program' := m'.programOf m'.cpu.program.latest
    let p := m.cpu.pc
    let i := Instruction.decode (program p)
    let j := program p &&& 0x03
    let pointer := m.ram.cell (.main m.ram.mainBank
      (.ofNat 256 (4 * m.psw.indirectBank.toNat + j.toNat)))
    let a := pointer.toUInt16 + if 2 ≤ j then 0x100 else 0
    let n := m.processInstruction noted
    let n' := m'.processInstruction noted
    i.direct? = some (.decode (program' start)) →
    program' start &&& 0x01 = a.highByte → program' (start + 1) = a.lowByte →
    (i = .mov .indirect ∨ i = .dbnz .indirect → program' (start + 2) = program (p + 1)) →
    n'.1 = n.1.elsewhere (start - p + 1) rom flash n'.1.journal ∧ n'.1.ram = n.1.ram ∧
      n.1.flash = m.flash ∧ n'.1.cpu.pc - start = n.1.cpu.pc - p + 1 ∧ n'.2 = n.2 := by
  intro m' program program' p i j pointer a n n' hform hhigh hlow hrest
  let k := m.start.fetchOpcode noted
  let k' := m'.start.fetchOpcode noted
  have hstf : i ≠ .stf := by
    intro hstf
    rw [hstf] at hform
    cases hform
  have haddress : directAddress (program' start) k'.fetch.2 = k.indirectAddress (program p) := by
    have hram : k.ram = m.ram := m.ram_fetchOpcode noted
    have hk : k.indirectAddress (program p) = m.indirectAddress (program p) := by
      simp only [Machine.indirectAddress, Machine.psw, Machine.register, hram]
    rw [hk, m.indirectAddress_eq_cell]
    exact directAddress_eq hhigh ((m'.low_fetchOpcode noted).trans hlow)
  have hoperands : i = .mov .indirect ∨ i = .dbnz .indirect → k'.fetch.1.fetch.2 = k.fetch.2 := by
    intro hi
    exact (m'.next_fetchOpcode noted).trans ((hrest hi).trans (m.low_fetchOpcode noted).symm)
  have hperform : k'.perform (program' start) (.decode (program' start)) =
      (k.perform (program p) i).elsewhere (start - p + 1) rom flash k'.journal :=
    k.perform_direct _ _ _ _ hform (m.fetch_fetchOpcode_elsewhere noted start rom flash) haddress
      hoperands
  have hn : n = ((k.perform (program p) i).retire, .executed i.cycles) :=
    Machine.processInstruction_eq noted h
  have hn' : n' = ((k'.perform (program' start) (.decode (program' start))).retire,
      .executed (Instruction.decode (program' start)).cycles) :=
    Machine.processInstruction_eq noted h
  have hmachine : n'.1 = n.1.elsewhere (start - p + 1) rom flash n'.1.journal := by
    rw [hn', hn, hperform]
    rfl
  refine ⟨hmachine, ?_, (Machine.writes_processInstruction noted h hstf).flash, ?_, ?_⟩
  · rw [hmachine]
    rfl
  · have hpc : n'.1.cpu.pc = n.1.cpu.pc + (start - p + 1) := by rw [hmachine]; rfl
    rw [hpc]
    grind
  · rw [hn', hn, Instruction.cycles_direct hform]

/-- A firmware that counts down the status word, found through a register of the main RAM bank that
the status word has selected. The count selects the other bank. -/
def countingDownPsw : Machine :=
  (Machine.cold #[0x56, 0x10] (by decide)).runActs [.writeRam 0x101 0x02, .writeRam 0x002 0x01]

theorem indirect_eq_direct_selecting_bank :
    let m := countingDownPsw
    let m' : Machine := { m.jump 1 with rom := ⟨#[0x00, 0x53, 0x01, 0x10], by decide⟩ }
    let n := (m.processInstruction false).1
    let n' := (m'.processInstruction false).1
    m.psw = ⟨0x02⟩ ∧ n.psw = ⟨0x01⟩ ∧ n'.ram = n.ram ∧ n.cpu.pc = 0x12 ∧ n'.cpu.pc - 1 = 0x13 := by
  intro m m' n n'
  have h : m.isHalted = false := by decide +kernel
  obtain ⟨-, hram, -, hpc, -⟩ :=
    indirect_eq_direct h false 1 ⟨#[0x00, 0x53, 0x01, 0x10], by decide⟩ m.flash
      (by decide +kernel) (by decide +kernel) (by decide +kernel) (by decide +kernel)
  have hn : n.cpu.pc = 0x12 := by decide +kernel
  have hn' : n'.cpu.pc - 1 = 0x13 := hpc.trans (by decide +kernel)
  exact ⟨by decide +kernel, by decide +kernel, hram, hn, hn'⟩

end VisualMemory
