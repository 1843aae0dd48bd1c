import VisualMemory.Proofs.Bits
import VisualMemory.Proofs.Frame
import VisualMemory.Proofs.Host

/-!
# What an instruction reads of its program

Instructions on a host that is the machine itself, but takes the bytes of the program from a function
and keeps a record of the addresses at which it is asked for them.

* `Reading`: a value and the program addresses that were read for it; `Reading.host`.
* `Reading.perform`, `Reading.instruction`: an instruction behind its opcode, and a whole one.
* `Reading.Local.instruction`: the record is complete, for no byte that is not in it matters.
* `Reading.value_instruction`: on the bank that the next fetch uses, this is what the processor
  does.
* `Reading.addresses_instruction`: the bytes that are read are those of the instruction, one after
  the other, and behind them the table byte of the one instruction that reads a table.
-/

namespace VisualMemory

/-! ## Addresses -/

/-- The addresses of so many bytes from an address on. -/
def span (address : UInt16) : Nat → List UInt16
  | 0 => []
  | count + 1 => address :: span (address + 1) count

theorem span_eq (address : UInt16) (count : Nat) :
    span address count = (List.range count).map fun k => address + .ofNat k := by
  induction count generalizing address with
  | zero => rfl
  | succ count ih =>
    have hshift (k : Nat) : address + 1 + .ofNat k = address + .ofNat (k + 1) := by
      rw [Nat.add_comm, UInt16.ofNat_add, ← UInt16.add_assoc]
      rfl
    rw [span, ih, List.range_succ_eq_map, List.map_cons, List.map_map]
    congr 1
    · exact (UInt16.add_zero address).symm
    · exact List.map_congr_left fun k _ => hshift k

/-! ## Forms that no opcode has -/

theorem forall_byte {P : UInt8 → Prop} (h : ∀ n : Fin 256, P (.ofFin n)) (b : UInt8) : P b :=
  h b.toFin

theorem Instruction.decode_ne_mov_immediate (raw : UInt8) : decode raw ≠ .mov .immediate := by
  revert raw
  exact forall_byte (by decide +kernel)

theorem Instruction.decode_ne_dbnz_immediate (raw : UInt8) : decode raw ≠ .dbnz .immediate := by
  revert raw
  exact forall_byte (by decide +kernel)

theorem Instruction.size_pos (i : Instruction) : 0 < i.size.toNat := by
  cases i with
  | ld o | st o | mov o | xch o | add o | addc o | sub o | subc o | inc o | dec o | and o | or o
  | xor o | be o | bne o | dbnz o => cases o <;> decide
  | _ => decide

/-! ## Program memories -/

/-- The bytes of a program memory by address. -/
def Machine.programOf (m : Machine) : Bank → UInt16 → UInt8
  | .rom => fun address => m.rom.read address.toNat
  | .flash => m.flash.readBanked 0

theorem Machine.readProgram_eq (m : Machine) : m.readProgram = m.programOf m.bank := by
  funext address
  unfold readProgram
  cases m.bank <;> rfl

/-- A value, and the addresses of the program bytes that were read for it, in order. -/
structure Reading (α : Type) where
  value : α
  addresses : List UInt16

namespace Reading

variable {α β : Type}

/-- What is read first comes first. -/
def bind (x : Reading α) (f : α → Reading β) : Reading β :=
  ⟨(f x.value).value, x.addresses ++ (f x.value).addresses⟩

instance : Monad Reading where
  pure a := ⟨a, []⟩
  bind := bind

instance : LawfulMonad Reading :=
  LawfulMonad.mk' Reading
    (fun x => congrArg (Reading.mk x.value) (List.append_nil _))
    (fun _ _ => rfl)
    (fun x f g => congrArg (Reading.mk _) (List.append_assoc ..))

/-! ## Instructions -/

section

variable (program : UInt16 → UInt8) (m : Machine) (raw : UInt8)

def read (address : UInt16) : Reading UInt8 :=
  ⟨program address, [address]⟩

/-- The machine, but with a program memory of its own and with a record of what is read there. -/
def host : Host Reading :=
  { Host.plain with readProgram := fun _ => read program }

def perform (i : Instruction) : Reading Machine :=
  (host program).perform m raw i

/-- One instruction of a processor that is not halted, its opcode byte included. -/
def instruction (noted : Bool) : Reading (Machine × Progress) := do
  let (m, raw) ← (host program).fetch m.start.commitBank
  let m := if noted then m.noteDecoded raw else m
  let m ← perform program m raw (.decode raw)
  return (m.retire, .executed (Instruction.decode raw).cycles)

end

/-! ## Nothing else is read -/

/-- The value depends on the bytes at the recorded addresses only. -/
def Local (f : (UInt16 → UInt8) → Reading α) : Prop :=
  ∀ program program', (∀ a ∈ (f program).addresses, program' a = program a) →
    f program' = f program

namespace Local

theorem of_eq {f : (UInt16 → UInt8) → Reading α} (h : ∀ program program', f program' = f program) :
    Local f :=
  fun program program' _ => h program program'

theorem read (address : UInt16) : Local fun program => Reading.read program address := by
  intro program program' h
  exact congrArg (Reading.mk · [address]) (h address (List.mem_singleton_self _))

theorem bind {f : (UInt16 → UInt8) → Reading α} {g : α → (UInt16 → UInt8) → Reading β}
    (hf : Local f) (hg : ∀ a, Local (g a)) :
    Local fun program => f program >>= fun a => g a program := by
  intro program program' h
  have hfirst : f program' = f program :=
    hf program program' fun a ha => h a (List.mem_append_left _ ha)
  have hrest : g (f program).value program' = g (f program).value program :=
    hg _ program program' fun a ha => h a (List.mem_append_right _ ha)
  show Reading.bind (f program') _ = Reading.bind (f program) _
  rw [hfirst, Reading.bind, Reading.bind, hrest]

theorem bind_of_eq {f : (UInt16 → UInt8) → Reading α} {g : α → (UInt16 → UInt8) → Reading β}
    (hf : Local f) (hg : ∀ a program program', g a program' = g a program) :
    Local fun program => f program >>= fun a => g a program :=
  hf.bind fun a => of_eq (hg a)

variable (m : Machine) (raw : UInt8)

theorem fetch : Local fun program => (host program).fetch m :=
  bind_of_eq (read _) fun _ _ _ => rfl

theorem fetchDirect : Local fun program => (host program).fetchDirect m raw :=
  bind_of_eq (fetch _) fun _ _ _ => rfl

theorem fetchBitDirect : Local fun program => (host program).fetchBitDirect m raw :=
  bind_of_eq (fetch _) fun _ _ _ => rfl

theorem operandAddress (o : Operand) :
    Local fun program => (host program).operandAddress m raw o := by
  cases o with
  | indirect => exact of_eq fun _ _ => rfl
  | direct => exact fetchDirect m raw
  | immediate => exact fetchDirect m raw

theorem operandValue (o : Operand) :
    Local fun program => (host program).operandValue m raw o := by
  cases o with
  | immediate => exact fetch m
  | direct => exact bind_of_eq (operandAddress m raw .direct) fun _ _ _ => rfl
  | indirect => exact bind_of_eq (operandAddress m raw .indirect) fun _ _ _ => rfl

theorem fetchCompared (o : Operand) :
    Local fun program => (host program).fetchCompared m raw o := by
  cases o with
  | direct => exact bind_of_eq (fetchDirect m raw) fun _ _ _ => rfl
  | immediate => exact .bind (of_eq fun _ _ => rfl) fun _ => bind_of_eq (fetch m) fun _ _ _ => rfl
  | indirect =>
    exact .bind (of_eq fun _ _ => rfl) fun _ => .bind (of_eq fun _ _ => rfl) fun _ =>
      bind_of_eq (fetch m) fun _ _ _ => rfl

theorem fetchNear : Local fun program => (host program).fetchNear m :=
  bind_of_eq (fetch m) fun _ _ _ => rfl

theorem fetchFar : Local fun program => (host program).fetchFar m :=
  .bind (fetch m) fun _ => bind_of_eq (fetch _) fun _ _ _ => rfl

theorem fetchPaged : Local fun program => (host program).fetchPaged m raw :=
  bind_of_eq (fetch m) fun _ _ _ => rfl

theorem fetchAbsolute : Local fun program => (host program).fetchAbsolute m :=
  .bind (fetch m) fun _ => bind_of_eq (fetch _) fun _ _ _ => rfl

theorem branchWhen (test : Bool) : Local fun program => (host program).branchWhen m test :=
  bind_of_eq (fetchNear m) fun _ _ _ => rfl

theorem compareBranch (o : Operand) (onEqual : Bool) :
    Local fun program => (host program).compareBranch m raw o onEqual :=
  .bind (fetchCompared m raw o) fun _ => bind_of_eq (fetchNear _) fun _ _ _ => rfl

theorem perform (i : Instruction) : Local fun program => Reading.perform program m raw i := by
  cases i with
  | nop | ldf | stf | mul | div | rol | ror | rolc | rorc | ret | reti =>
    exact of_eq fun _ _ => rfl
  | ldc =>
    exact .bind (of_eq fun _ _ => rfl) fun _ => .bind (of_eq fun _ _ => rfl) fun _ =>
      bind_of_eq (read _) fun _ _ _ => rfl
  | ld o | add o | sub o | and o | or o | xor o =>
    exact bind_of_eq (operandValue m raw o) fun _ _ _ => rfl
  | addc o | subc o =>
    exact .bind (of_eq fun _ _ => rfl) fun _ => bind_of_eq (operandValue m raw o) fun _ _ _ => rfl
  | st o | xch o | inc o | dec o => exact bind_of_eq (operandAddress m raw o) fun _ _ _ => rfl
  | mov o =>
    exact .bind (operandAddress m raw o) fun _ => bind_of_eq (fetch _) fun _ _ _ => rfl
  | dbnz o =>
    exact .bind (operandAddress m raw o) fun _ => bind_of_eq (fetchNear _) fun _ _ _ => rfl
  | push | pop => exact bind_of_eq (fetchDirect m raw) fun _ _ _ => rfl
  | set1 | clr1 | not1 => exact bind_of_eq (fetchBitDirect m raw) fun _ _ _ => rfl
  | br => exact branchWhen m true
  | bz | bnz => exact .bind (of_eq fun _ _ => rfl) fun _ => branchWhen m _
  | bp | bpc | bn =>
    exact .bind (fetchBitDirect m raw) fun _ => bind_of_eq (fetchNear _) fun _ _ _ => rfl
  | be o => exact compareBranch m raw o true
  | bne o => exact compareBranch m raw o false
  | brf | callr => exact bind_of_eq (fetchFar m) fun _ _ _ => rfl
  | jmp | call => exact bind_of_eq (fetchPaged m raw) fun _ _ _ => rfl
  | jmpf | callf => exact bind_of_eq (fetchAbsolute m) fun _ _ _ => rfl

/-- An instruction depends on the bytes at the addresses that it records, and on no other byte of
program memory. -/
theorem instruction (noted : Bool) : Local fun program => Reading.instruction program m noted :=
  .bind (fetch _) fun _ => .bind (perform _ _ _) fun _ => of_eq fun _ _ => rfl

end Local

/-! ## Agreement with the machine -/

section

variable (program : UInt16 → UInt8) (m : Machine) (raw : UInt8)

theorem perform_div : perform program m raw .div = pure m.divide :=
  Host.isPlain_plain.divide

theorem perform_reti : perform program m raw .reti = pure m.leave :=
  Host.isPlain_plain.leave

end

/-- On the program memory in use every instruction is what the machine does. No instruction reads
its program after it has changed anything but the program counter. -/
theorem value_perform (m : Machine) (raw : UInt8) (i : Instruction) :
    (perform m.readProgram m raw i).value = m.perform raw i := by
  cases i with
  | ld o | st o | mov o | xch o | add o | addc o | sub o | subc o | inc o | dec o | and o | or o
  | xor o | be o | bne o | dbnz o => cases o <;> rfl
  | div => exact congrArg Reading.value (perform_div ..)
  | reti => exact congrArg Reading.value (perform_reti ..)
  | bpc => exact apply_ite Reading.value ..
  | _ => rfl

/-- The table byte that an instruction reads besides its own bytes. -/
def tableAddresses (m : Machine) : Instruction → List UInt16
  | .ldc => [m.tableAddress + m.acc.toUInt16]
  | _ => []

theorem tableAddresses_congr {m n : Machine} (h : n.ram = m.ram) (i : Instruction) :
    tableAddresses n i = tableAddresses m i := by
  cases i with
  | ldc => simp only [tableAddresses, Machine.tableAddress, Machine.acc, Machine.register, h]
  | _ => rfl

theorem addresses_perform (program : UInt16 → UInt8) (m : Machine) (raw : UInt8) {i : Instruction}
    (hmov : i ≠ .mov .immediate) (hdbnz : i ≠ .dbnz .immediate) :
    (perform program m raw i).addresses =
      span m.cpu.pc (i.size.toNat - 1) ++ tableAddresses m i := by
  cases i with
  | mov o =>
    cases o with
    | immediate => exact absurd rfl hmov
    | _ => rfl
  | dbnz o =>
    cases o with
    | immediate => exact absurd rfl hdbnz
    | _ => rfl
  | ld o | st o | xch o | add o | addc o | sub o | subc o | inc o | dec o | and o | or o | xor o
  | be o | bne o => cases o <;> rfl
  | div => exact congrArg Reading.addresses (perform_div ..)
  | reti => exact congrArg Reading.addresses (perform_reti ..)
  | bpc =>
    show _ ++ (_ ++ (ite _ _ _ : Reading Machine).addresses) = _
    split
    · rfl
    · rfl
  | _ => rfl

end Reading

namespace Machine

/-! ## Whole instructions -/

theorem commitBank_eq (m : Machine) :
    m.commitBank =
      { m with
        cpu := { m.cpu with program := m.cpu.program.commit }
        journal := m.commitBank.journal } := by
  unfold commitBank
  split
  · rfl
  · -- without a waiting switch the commit changes nothing
    have hpending : m.cpu.program.pending = none := by
      simpa [BankLatch.isPending] using ‹¬ m.cpu.program.isPending = true›
    have hcommit : m.cpu.program.commit = m.cpu.program := by
      rw [BankLatch.commit, BankLatch.latest, hpending]
      exact congrArg (BankLatch.mk m.cpu.program.current) hpending.symm
    rw [hcommit]

/-- Behind the opcode byte the program counter is one further on, a waiting bank switch is made, and
nothing else has changed that an instruction sees. -/
theorem fetchOpcode_eq (m : Machine) (noted : Bool) :
    m.fetchOpcode noted =
      { m with
        cpu := { m.cpu with pc := m.cpu.pc + 1, program := m.cpu.program.commit }
        journal := (m.fetchOpcode noted).journal } := by
  unfold fetchOpcode
  rw [commitBank_eq]
  cases noted <;> rfl

theorem pc_commitBank (m : Machine) : m.commitBank.cpu.pc = m.cpu.pc := by
  rw [commitBank_eq]

theorem ram_commitBank (m : Machine) : m.commitBank.ram = m.ram := by
  rw [commitBank_eq]

theorem readProgram_commitBank (m : Machine) :
    m.commitBank.readProgram = m.programOf m.cpu.program.latest := by
  rw [readProgram_eq, commitBank_eq]
  show Machine.programOf _ m.cpu.program.latest = _
  cases m.cpu.program.latest <;> rfl

theorem readProgram_fetchOpcode (m : Machine) (noted : Bool) :
    (m.fetchOpcode noted).readProgram = m.programOf m.cpu.program.latest := by
  rw [← readProgram_commitBank]
  cases noted <;> rfl

section

variable (m : Machine) (noted : Bool)

theorem ram_fetchOpcode : (m.start.fetchOpcode noted).ram = m.ram := by
  rw [fetchOpcode_eq]
  rfl

theorem pc_fetchOpcode : (m.start.fetchOpcode noted).cpu.pc = m.cpu.pc + 1 := by
  rw [fetchOpcode_eq]
  rfl

theorem low_fetchOpcode : (m.start.fetchOpcode noted).fetch.2 =
    m.programOf m.cpu.program.latest (m.cpu.pc + 1) := by
  show (m.start.fetchOpcode noted).readProgram (m.start.fetchOpcode noted).cpu.pc = _
  rw [readProgram_fetchOpcode, pc_fetchOpcode]
  rfl

theorem next_fetchOpcode : (m.start.fetchOpcode noted).fetch.1.fetch.2 =
    m.programOf m.cpu.program.latest (m.cpu.pc + 2) := by
  show (m.start.fetchOpcode noted).readProgram ((m.start.fetchOpcode noted).cpu.pc + 1) = _
  rw [readProgram_fetchOpcode, pc_fetchOpcode, UInt16.add_assoc]
  rfl

end

theorem processInstruction_eq {m : Machine} (noted : Bool) (h : m.isHalted = false) :
    let raw := m.programOf m.cpu.program.latest m.cpu.pc
    m.processInstruction noted =
      (((m.start.fetchOpcode noted).perform raw (.decode raw)).retire,
        .executed (Instruction.decode raw).cycles) := by
  have hraw : m.start.commitBank.fetch.2 = m.programOf m.cpu.program.latest m.cpu.pc := by
    show m.start.commitBank.readProgram m.start.commitBank.cpu.pc = _
    rw [readProgram_commitBank, pc_commitBank]
    rfl
  rw [processInstruction_of_not_halted noted h, hraw]
  rfl

end Machine

namespace Reading

open Machine

theorem value_instruction {m : Machine} (noted : Bool) (h : m.isHalted = false) :
    m.processInstruction noted =
      (instruction (m.programOf m.cpu.program.latest) m noted).value := by
  have hprogram : (m.start.fetchOpcode noted).readProgram = m.programOf m.cpu.program.latest :=
    readProgram_fetchOpcode m.start noted
  rw [processInstruction_of_not_halted noted h, ← hprogram, execute, ← value_perform]
  cases noted <;> rfl

/-- The opcode byte comes first, and the rest of the instruction follows one byte further on, in
the same RAM. -/
theorem instruction_eq (program : UInt16 → UInt8) (m : Machine) (noted : Bool) :
    ∃ n : Machine, n.cpu.pc = m.cpu.pc + 1 ∧ n.ram = m.ram ∧
      let raw := program m.cpu.pc
      let rest := perform program n raw (.decode raw)
      instruction program m noted =
        ⟨(rest.value.retire, .executed (Instruction.decode raw).cycles),
          m.cpu.pc :: rest.addresses⟩ := by
  have hpc : m.start.commitBank.cpu.pc = m.cpu.pc := pc_commitBank _
  have hram : m.start.commitBank.ram = m.ram := ram_commitBank _
  rw [← hpc, ← hram]
  let n := m.start.commitBank.jump (m.start.commitBank.cpu.pc + 1)
  cases noted with
  | false =>
    refine ⟨n, rfl, rfl, ?_⟩
    exact congrArg (Reading.mk _) (congrArg (_ :: ·) (List.append_nil _))
  | true =>
    refine ⟨n.noteDecoded (program m.start.commitBank.cpu.pc), rfl, rfl, ?_⟩
    exact congrArg (Reading.mk _) (congrArg (_ :: ·) (List.append_nil _))

theorem addresses_instruction (program : UInt16 → UInt8) (m : Machine) (noted : Bool) :
    (instruction program m noted).addresses =
      span m.cpu.pc (Instruction.decode (program m.cpu.pc)).size.toNat ++
        tableAddresses m (.decode (program m.cpu.pc)) := by
  obtain ⟨n, hpc, hram, hn⟩ := instruction_eq program m noted
  let raw := program m.cpu.pc
  obtain ⟨count, hcount⟩ := Nat.exists_eq_add_one.mpr (Instruction.decode raw).size_pos
  rw [hn]
  show m.cpu.pc :: (perform program n raw (.decode raw)).addresses = _
  rw [addresses_perform program n raw (Instruction.decode_ne_mov_immediate raw)
    (Instruction.decode_ne_dbnz_immediate raw), tableAddresses_congr hram, hpc, hcount]
  rfl

end Reading

end VisualMemory
