import VisualMemory.Proofs.Act
import VisualMemory.Proofs.Program.Reading

/-!
# Where an instruction goes on

The law of control flow, in terms of the instruction's address, its bytes and the machine before it.
The opcode map, the table of sizes and the order in which operands are fetched are written down
apart from each other; here they are shown to agree for every opcode.

* `Machine.operandCell`, `bitAddress`, `pagedTarget`: operands as functions of the bytes.
* `Machine.branches`: whether a short branch is taken.
* `Machine.successor`: the address of the next instruction. `Machine.toNat_successor_absolute`,
  `toNat_successor_far`, `toNat_successor_return`: the addresses that take two bytes, as numbers.
* `control_flow`: an instruction consumes as many bytes as its size says, and goes on there.
-/

namespace VisualMemory

/-! ## Operands as functions of the bytes -/

/-- The nine-bit address of a direct operand: opcode bit 0 on top of the byte behind the opcode. -/
def directAddress (raw low : UInt8) : UInt16 :=
  ((raw &&& 0x01).toUInt16 <<< 8) ||| low.toUInt16

/-- The nine-bit address beside a bit index: opcode bit 4 on top of the byte behind the opcode. -/
def bitAddress (raw low : UInt8) : UInt16 :=
  ((raw &&& 0x10).toUInt16 <<< 4) ||| low.toUInt16

/-- A byte as a signed number. -/
def signExtend (b : UInt8) : UInt16 :=
  b.toInt8.toInt16.toUInt16

/-- A target in the page of the next instruction: the page's four bits, opcode bit 4, opcode bits 0
to 2, and the byte behind the opcode. -/
def pagedTarget (next : UInt16) (raw low : UInt8) : UInt16 :=
  let page : UInt16 := next &&& 0xF000
  page ||| ((UInt8.ofBool (raw.bit 4)).toUInt16 <<< 11) ||| ((raw &&& 0x07).toUInt16 <<< 8) |||
    low.toUInt16

theorem offset_eq (w : UInt16) (displacement : UInt8) :
    w.offset displacement = w + signExtend displacement := by
  have hsign : ∀ d : UInt8,
      (if d.bit 7 then d.toUInt16 + 0xFF00 else d.toUInt16) = signExtend d :=
    forall_byte (by decide +kernel)
  rw [← hsign, UInt16.offset]
  split
  · exact UInt16.add_assoc ..
  · rfl

theorem pagedTarget_eq (next : UInt16) (raw low : UInt8) :
    (next &&& (0xF000 : UInt16)) |||
      (((raw &&& 0x10).toUInt16 <<< 7) ||| ((raw &&& 0x07).toUInt16 <<< 8)) ||| low.toUInt16 =
      pagedTarget next raw low := by
  have hbit : ∀ b : UInt8,
      (b &&& 0x10).toUInt16 <<< 7 = (UInt8.ofBool (b.bit 4)).toUInt16 <<< 11 :=
    forall_byte (by decide +kernel)
  rw [pagedTarget, hbit, ← UInt16.or_assoc (next &&& 0xF000)]

namespace Machine

variable (m : Machine)

def operandCell (raw low : UInt8) : Operand → UInt16
  | .indirect => m.indirectAddress raw
  | .direct | .immediate => directAddress raw low

/-- The bit that an opcode and the byte behind it name. -/
def testedBit (raw low : UInt8) : Bool :=
  (m.register (bitAddress raw low)).bit (bitIndex raw)

def comparesEqual (raw operand : UInt8) : Operand → Bool
  | .immediate => m.acc == operand
  | .direct => m.acc == m.register (directAddress raw operand)
  | .indirect => m.register (m.indirectAddress raw) == operand

/-- Whether an instruction with this byte behind its opcode makes a short branch. -/
def branches (raw operand : UInt8) : Instruction → Bool
  | .br => true
  | .bz => m.acc == 0
  | .bnz => m.acc != 0
  | .bp | .bpc => m.testedBit raw operand
  | .bn => !m.testedBit raw operand
  | .be source => m.comparesEqual raw operand source
  | .bne source => !m.comparesEqual raw operand source
  | .dbnz cell => m.register (m.operandCell raw operand cell) - 1 != 0
  | _ => false

def stackPointer : UInt8 :=
  m.ram.readRaw Register.sp.toNat

/-- The address on top of the stack: its low byte lies below its high byte. -/
def returnAddress : UInt16 :=
  .ofBytes (m.ram.readStack m.stackPointer) (m.ram.readStack (m.stackPointer - 1))

/-- The address of the instruction after the one at `p`. -/
def successor (program : UInt16 → UInt8) (p : UInt16) (raw : UInt8) (i : Instruction) : UInt16 :=
  match i with
  | .brf | .callr => p + 2 + .ofBytes (program (p + 2)) (program (p + 1))
  | .jmpf | .callf => .ofBytes (program (p + 1)) (program (p + 2))
  | .jmp | .call => pagedTarget (p + 2) raw (program (p + 1))
  | .ret | .reti => m.returnAddress
  | i =>
    if m.branches raw (program (p + 1)) i then p + i.size + signExtend (program (p + i.size - 1))
    else p + i.size

theorem successor_congr {m n : Machine} (h : n.ram = m.ram) : n.successor = m.successor := by
  funext program p raw i
  simp only [successor, returnAddress, stackPointer, h]
  have hbranches : n.branches = m.branches := by
    funext raw operand i
    cases i with
    | be o | bne o | dbnz o =>
      cases o <;> simp only [branches, comparesEqual, operandCell, indirectAddress, psw, acc,
        register, h]
    | _ => simp only [branches, testedBit, acc, register, h]
  rw [hbranches]

/-! ## Targets as numbers

A word that an instruction holds as its target has its high byte first, a distance its low byte; on
the stack the high byte lies on top.
-/

section

variable (program : UInt16 → UInt8) (p : UInt16) (raw : UInt8) {i : Instruction}

theorem toNat_successor_absolute (hi : i ∈ [.jmpf, .callf]) :
    (m.successor program p raw i).toNat =
      256 * (program (p + 1)).toNat + (program (p + 2)).toNat := by
  have hsuccessor : m.successor program p raw i = .ofBytes (program (p + 1)) (program (p + 2)) := by
    revert i
    simp [successor]
  rw [hsuccessor, UInt16.toNat_ofBytes]

/-- Distances count from the third byte of the instruction. -/
theorem toNat_successor_far (hi : i ∈ [.brf, .callr]) :
    (m.successor program p raw i).toNat =
      (p.toNat + 2 + (256 * (program (p + 2)).toNat + (program (p + 1)).toNat)) % 65536 := by
  have hsuccessor : m.successor program p raw i =
      p + 2 + .ofBytes (program (p + 2)) (program (p + 1)) := by
    revert i
    simp [successor]
  rw [hsuccessor, UInt16.toNat_add, UInt16.toNat_add, UInt16.toNat_ofBytes]
  exact Nat.mod_add_mod ..

theorem toNat_successor_return (hi : i ∈ [.ret, .reti]) :
    (m.successor program p raw i).toNat =
      256 * (m.ram.readStack m.stackPointer).toNat +
        (m.ram.readStack (m.stackPointer - 1)).toNat := by
  have hsuccessor : m.successor program p raw i = m.returnAddress := by
    revert i
    simp [successor]
  rw [hsuccessor, returnAddress, UInt16.toNat_ofBytes]

end

/-! ## The program counter after an instruction -/

theorem pc_branchIf (taken : Bool) (target : UInt16) :
    (m.branchIf taken target).cpu.pc = if taken then target else m.cpu.pc := by
  unfold branchIf
  split
  · rfl
  · rfl

theorem pc_divide : m.divide.cpu.pc = m.cpu.pc := by
  simp only [divide]
  split
  · rfl
  · rfl

theorem stackPointer_push (value : UInt8) : (m.push value).stackPointer = m.stackPointer + 1 :=
  Ram.readRaw_write_register _ 6 _

theorem stackPointer_pop : m.pop.1.stackPointer = m.stackPointer - 1 :=
  Ram.readRaw_write_register _ 6 _

theorem popAddress_eq : m.popAddress.2 = m.returnAddress := by
  show UInt16.ofBytes _ (m.pop.1.ram.readStack m.pop.1.stackPointer) = _
  rw [stackPointer_pop]
  rfl

theorem pc_leave : m.leave.cpu.pc = m.returnAddress := by
  rw [← popAddress_eq]
  cases h : m.cpu.services with
  | nil => rw [leave_nil h]
  | cons r rest => rw [leave_cons h]

end Machine

namespace Reading

open Machine

/-- An instruction whose opcode byte at `p` has just been fetched goes on at its successor. -/
theorem pc_perform (program : UInt16 → UInt8) (m : Machine) (p : UInt16) (raw : UInt8)
    {i : Instruction} (hmov : i ≠ .mov .immediate) (hdbnz : i ≠ .dbnz .immediate) :
    (perform program (m.jump (p + 1)) raw i).value.cpu.pc = m.successor program p raw i := by
  have h2 : p + 1 + 1 = p + 2 := UInt16.add_assoc ..
  have h3 : p + 1 + 1 + 1 = p + 3 := by rw [h2]; exact UInt16.add_assoc ..
  -- the displacement is the last byte, at the end of two bytes or of three
  have hnear2 {test taken : Bool} (ht : test = taken) :
      (if test then (p + 1 + 1).offset (program (p + 1)) else p + 1 + 1) =
        if taken then p + 2 + signExtend (program (p + 2 - 1)) else p + 2 := by
    rw [ht, offset_eq, ← h2, UInt16.add_sub_cancel]
  have hnear3 {test taken : Bool} (ht : test = taken) :
      (if test then (p + 1 + 1 + 1).offset (program (p + 1 + 1)) else p + 1 + 1 + 1) =
        if taken then p + 3 + signExtend (program (p + 3 - 1)) else p + 3 := by
    rw [ht, offset_eq, ← h3, UInt16.add_sub_cancel]
  -- a distance that takes two bytes counts from the second of them
  have hfar : p + 1 + 1 + 1 - 1 + UInt16.ofBytes (program (p + 1 + 1)) (program (p + 1)) =
      p + 2 + UInt16.ofBytes (program (p + 2)) (program (p + 1)) := by
    rw [UInt16.add_sub_cancel, h2]
  have habsolute : UInt16.ofBytes (program (p + 1)) (program (p + 1 + 1)) =
      .ofBytes (program (p + 1)) (program (p + 2)) := by
    rw [h2]
  cases i with
  | nop | ldc | ldf | stf | mul | rol | ror | rolc | rorc => rfl
  | div => exact (congrArg (·.value.cpu.pc) (perform_div ..)).trans (pc_divide _)
  | push | pop | set1 | clr1 | not1 => exact h2
  | ld o | st o | xch o | add o | addc o | sub o | subc o | inc o | dec o | and o | or o | xor o =>
    cases o with
    | indirect => rfl
    | _ => exact h2
  | mov o =>
    cases o with
    | immediate => exact absurd rfl hmov
    | indirect => exact h2
    | direct => exact h3
  | br | bz | bnz => exact (pc_branchIf ..).trans (hnear2 rfl)
  | bp => exact (pc_branchIf ..).trans (hnear3 (beq_true _))
  | bn => exact (pc_branchIf ..).trans (hnear3 (beq_false _))
  | bpc => exact (apply_ite (fun n : Reading Machine => n.value.cpu.pc) ..).trans (hnear3 rfl)
  | be o => cases o <;> exact (pc_branchIf ..).trans (hnear3 (beq_true _))
  | bne o => cases o <;> exact (pc_branchIf ..).trans (hnear3 (beq_false _))
  | dbnz o =>
    cases o with
    | immediate => exact absurd rfl hdbnz
    | indirect => exact (pc_branchIf ..).trans (hnear2 rfl)
    | direct => exact (pc_branchIf ..).trans (hnear3 rfl)
  | brf | callr => exact hfar
  | jmp | call => exact (pagedTarget_eq ..).trans (congrArg (pagedTarget · raw _) h2)
  | jmpf | callf => exact habsolute
  | ret => exact popAddress_eq _
  | reti => exact (congrArg (·.value.cpu.pc) (perform_reti ..)).trans (pc_leave _)

theorem pc_instruction (program : UInt16 → UInt8) (m : Machine) (noted : Bool) :
    (instruction program m noted).value.1.cpu.pc =
      m.successor program m.cpu.pc (program m.cpu.pc) (.decode (program m.cpu.pc)) := by
  obtain ⟨n, hpc, hram, hn⟩ := instruction_eq program m noted
  let raw := program m.cpu.pc
  have hjump : n = n.jump (m.cpu.pc + 1) := by rw [← hpc]; rfl
  rw [hn]
  show (perform program n raw (.decode raw)).value.cpu.pc = _
  rw [hjump, pc_perform program n _ raw (Instruction.decode_ne_mov_immediate raw)
    (Instruction.decode_ne_dbnz_immediate raw), successor_congr hram]

end Reading

/-- **The law of control flow.** A processor that is not halted consumes the program bytes from its
program counter on, as many as the size of the instruction says, one after the other, from the bank
that the next fetch uses; a table byte is all that an instruction reads besides, and no other byte
of program memory matters. Then it goes on at the instruction's successor. -/
theorem control_flow {m : Machine} (h : m.isHalted = false) (noted : Bool) :
    let program := m.programOf m.cpu.program.latest
    let p := m.cpu.pc
    let i := Instruction.decode (program p)
    let reading (bytes : UInt16 → UInt8) := Reading.instruction bytes m noted
    m.processInstruction noted = (reading program).value ∧
    (reading program).addresses =
      (List.range i.size.toNat).map (p + .ofNat ·) ++ Reading.tableAddresses m i ∧
    (∀ bytes, (∀ a ∈ (reading program).addresses, bytes a = program a) →
      reading bytes = reading program) ∧
    (m.processInstruction noted).1.cpu.pc = m.successor program p (program p) i := by
  refine ⟨Reading.value_instruction noted h, ?_, Reading.Local.instruction m noted _, ?_⟩
  · rw [← span_eq]
    exact Reading.addresses_instruction ..
  · rw [Reading.value_instruction noted h]
    exact Reading.pc_instruction ..

/-- A firmware that starts with a short branch over its own start, backwards. -/
def wrappingBranch : Machine :=
  .cold #[0x01, 0xFD] (by decide)

theorem control_flow_below_zero :
    wrappingBranch.isHalted = false ∧ wrappingBranch.cpu.pc = 0 ∧
      (wrappingBranch.processInstruction false).1.cpu.pc = 0xFFFF := by
  have h : wrappingBranch.isHalted = false := by decide +kernel
  exact ⟨h, rfl, (control_flow h false).2.2.2.trans (by decide +kernel)⟩

end VisualMemory
