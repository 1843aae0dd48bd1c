import VisualMemory.Proofs.Program.Stores

/-!
# Which flags an instruction changes

The status word is a register like any other and a program may store to it. Apart from that it
changes flag by flag, and each instruction has its own flags to change; the bank selections, which
lie in the same byte, are carried over by every one of these updates.

* `Instruction.flags`: the flags that are part of an instruction's result.
* `Machine.SetsOnly`: no other bits of the status word change; one lemma for each way to set flags.
* `setsOnly_perform`, `psw_perform`: instructions with flags in their result, and the others.
* `psw_frame`: what one instruction, the way into a service routine, or a reset leaves of the status
  word.
-/

namespace VisualMemory

open Ram (Cell)

/-- The flags that are part of an instruction's result. -/
def Instruction.flags : Instruction → List Flag
  | add _ | addc _ | sub _ | subc _ => [.carry, .auxiliaryCarry, .overflow]
  | mul | div => [.carry, .overflow]
  | rolc | rorc | be _ | bne _ => [.carry]
  | _ => []

theorem Flag.index_lt (f : Flag) : f.index < 8 := by
  cases f <;> decide

theorem Flag.index_inj {f g : Flag} : f.index = g.index ↔ f = g := by
  cases f <;> cases g <;> decide

namespace Machine

/-! ## The status word among the registers -/

theorem psw_eq_getD (m : Machine) :
    m.psw = ⟨(m.ram.latches.get 1).getD (m.ram.cell (.register 1))⟩ :=
  congrArg Psw.mk (m.ram.read_register 1)

theorem psw_congr {m n : Machine} (hl : n.ram.latches = m.ram.latches)
    (hc : n.ram.cell (.register 1) = m.ram.cell (.register 1)) : n.psw = m.psw := by
  rw [psw_eq_getD, psw_eq_getD, hl, hc]

theorem psw_setPsw (m : Machine) (p : Psw) : (m.setPsw p).psw = m.psw ∨ (m.setPsw p).psw = p := by
  have hread : (m.setPsw p).psw = ⟨(m.ram.latches.get 1).getD p.byte⟩ :=
    congrArg Psw.mk (m.ram.read_write_register 1 p.byte)
  rw [hread, psw_eq_getD]
  cases m.ram.latches.get 1 with
  | none => exact .inr rfl
  | some value => exact .inl rfl

/-! ## Setting flags -/

/-- No bit of the status word changes from `m` to `n` but those of these flags. -/
def SetsOnly (flags : List Flag) (m n : Machine) : Prop :=
  ∀ k < 8, (∀ f ∈ flags, f.index ≠ k) → n.psw.byte.bit k = m.psw.byte.bit k

namespace SetsOnly

variable {m n : Machine} {flags : List Flag}

theorem of_eq (h : n.psw = m.psw) : SetsOnly flags m n :=
  fun k _ _ => congrArg (·.byte.bit k) h

theorem of_ram_eq (h : n.ram = m.ram) : SetsOnly flags m n :=
  of_eq (psw_congr (congrArg Ram.latches h) (congrArg (Ram.cell · _) h))

theorem setCell (h : SetsOnly flags m n) {c : Cell} (hc : c ≠ .register 1) (value : UInt8) :
    SetsOnly flags m { n with ram := n.ram.setCell c value } := by
  have hpsw : Machine.psw { n with ram := n.ram.setCell c value } = n.psw :=
    psw_congr (Ram.latches_setCell ..) ((Ram.cell_setCell ..).trans (if_neg hc))
  intro k hk hf
  rw [hpsw]
  exact h k hk hf

theorem setAcc (h : SetsOnly flags m n) (value : UInt8) : SetsOnly flags m (n.setAcc value) :=
  have hacc : Cell.register 0 ≠ .register 1 := by decide
  h.setCell hacc value

theorem jump (h : SetsOnly flags m n) (pc : UInt16) : SetsOnly flags m (n.jump pc) :=
  h

theorem branchIf (h : SetsOnly flags m n) (taken : Bool) (target : UInt16) :
    SetsOnly flags m (n.branchIf taken target) := by
  unfold Machine.branchIf
  split
  · exact h.jump target
  · exact h

theorem setPsw (h : SetsOnly flags m n) {p : Psw}
    (hp : ∀ k < 8, (∀ f ∈ flags, f.index ≠ k) → p.byte.bit k = n.psw.byte.bit k) :
    SetsOnly flags m (n.setPsw p) := by
  intro k hk hf
  rcases psw_setPsw n p with heq | heq
  · rw [heq]
    exact h k hk hf
  · rw [heq, hp k hk hf]
    exact h k hk hf

theorem setFlag (h : SetsOnly flags m n) {f : Flag} (hf : f ∈ flags) (on : Bool) :
    SetsOnly flags m (n.setFlag f on) :=
  h.setPsw fun _ hk hne => (UInt8.bit_setBit _ on f.index_lt hk).trans (if_neg (hne f hf))

theorem storeResult (h : SetsOnly flags m n) (hcarry : .carry ∈ flags)
    (haux : .auxiliaryCarry ∈ flags) (hover : .overflow ∈ flags) (r : Alu.Result) :
    SetsOnly flags m (n.storeResult r) := by
  refine (h.setAcc r.value).setPsw fun k hk hne => ?_
  refine ((UInt8.bit_setBit _ _ (by decide) hk).trans (if_neg (hne _ hover))).trans ?_
  refine ((UInt8.bit_setBit _ _ (by decide) hk).trans (if_neg (hne _ haux))).trans ?_
  exact (UInt8.bit_setBit _ _ (by decide) hk).trans (if_neg (hne _ hcarry))

theorem multiply (h : SetsOnly flags m n) (hcarry : .carry ∈ flags) (hover : .overflow ∈ flags) :
    SetsOnly flags m n.multiply := by
  refine (setFlag ?_ hcarry _).setFlag hover _
  have hb : Cell.register 2 ≠ .register 1 := by decide
  have hc : Cell.register 3 ≠ .register 1 := by decide
  exact ((h.setCell hb _).setAcc _).setCell hc _

theorem divide (h : SetsOnly flags m n) (hcarry : .carry ∈ flags) (hover : .overflow ∈ flags) :
    SetsOnly flags m n.divide := by
  have hb : Cell.register 2 ≠ .register 1 := by decide
  have hc : Cell.register 3 ≠ .register 1 := by decide
  simp only [Machine.divide]
  refine setFlag ?_ hcarry _
  split
  · exact ((h.setAcc _).setCell hb _).setFlag hover _
  · exact (((h.setAcc _).setCell hc _).setCell hb _).setFlag hover _

end SetsOnly

/-! ## Instructions -/

/-- An instruction with flags in its result changes no other bits of the status word. -/
theorem setsOnly_perform (m : Machine) (raw : UInt8) {i : Instruction}
    (hi : Register.psw ∈ i.registers) : SetsOnly i.flags m (m.perform raw i) := by
  have hoperand (o : Operand) {flags : List Flag} : SetsOnly flags m (m.operandValue raw o).1 := by
    cases o <;> exact .of_ram_eq rfl
  have hcompared (o : Operand) {flags : List Flag} : SetsOnly flags m (m.fetchCompared raw o).1 := by
    cases o <;> exact .of_ram_eq rfl
  have hstart {flags : List Flag} : SetsOnly flags m m := .of_ram_eq rfl
  cases i with
  | add o | addc o | sub o | subc o =>
    exact (hoperand o).storeResult (by simp [Instruction.flags]) (by simp [Instruction.flags])
      (by simp [Instruction.flags]) _
  | mul => exact hstart.multiply (by decide) (by decide)
  | div => exact hstart.divide (by decide) (by decide)
  | rolc | rorc => exact (hstart.setAcc _).setFlag (by decide) _
  | be o | bne o => exact (((hcompared o).jump _).setFlag (by simp [Instruction.flags]) _).branchIf _ _
  | _ => simp [Instruction.registers, Register.psw, Register.acc, Register.sp] at hi

theorem store?_fst (m : Machine) (raw low next : UInt8) (i : Instruction) :
    (m.store? raw low next i).map Prod.fst = m.destination? raw low i ∨
      i = .bpc ∧ m.testedBit raw low = false := by
  cases i with
  | mov o => cases o <;> exact .inl rfl
  | bpc =>
    cases ht : m.testedBit raw low with
    | true => exact .inl (by simp [store?, destination?, ht])
    | false => exact .inr ⟨rfl, rfl⟩
  | _ => exact .inl rfl

theorem toNat_destination_lt {m : Machine} {raw low : UInt8} {i : Instruction} {address : UInt16}
    (h : m.destination? raw low i = some address) : address.toNat < 512 := by
  have hor {w v : UInt16} (hw : w.toNat < 512) (hv : v.toNat < 512) : (w ||| v).toNat < 512 := by
    rw [UInt16.toNat_or]
    exact Nat.or_lt_two_pow (n := 9) hw hv
  have hbyte (b : UInt8) : b.toUInt16.toNat < 512 := by
    have := b.toNat_lt
    rw [UInt8.toNat_toUInt16]
    omega
  have hdirect : (directAddress raw low).toNat < 512 := by
    have hpage : ∀ b : UInt8, ((b &&& 0x01).toUInt16 <<< 8).toNat < 512 :=
      forall_byte (by decide +kernel)
    exact hor (hpage raw) (hbyte low)
  have hbit : (bitAddress raw low).toNat < 512 := by
    have hpage : ∀ b : UInt8, ((b &&& 0x10).toUInt16 <<< 4).toNat < 512 :=
      forall_byte (by decide +kernel)
    exact hor (hpage raw) (hbyte low)
  have hindirect : (m.indirectAddress raw).toNat < 512 := by
    have hpage : ∀ b : UInt8, ((b &&& 0x03 &&& 0x02).toUInt16 <<< 7).toNat < 512 :=
      forall_byte (by decide +kernel)
    exact hor (hbyte _) (hpage raw)
  cases i with
  | st o | mov o | xch o | inc o | dec o | dbnz o =>
    cases h
    cases o with
    | indirect => exact hindirect
    | _ => exact hdirect
  | pop =>
    cases h
    exact hdirect
  | set1 | clr1 | not1 | bpc =>
    cases h
    exact hbit
  | _ => cases h

/-- All other instructions leave the status word alone, unless they store to it. -/
theorem psw_perform (m : Machine) (raw : UInt8) {i : Instruction} (hi : Register.psw ∉ i.registers)
    (hstore : (m.store? raw m.fetch.2 m.fetch.1.fetch.2 i).map Prod.fst ≠ some Register.psw) :
    (m.perform raw i).psw = m.psw := by
  have hlatches : (m.perform raw i).ram.latches = m.ram.latches := by
    by_cases hreti : i = .reti
    · rw [hreti]
      exact (leaves_leave m).latches
    · exact (Keeps.perform m raw hreti).latches
  by_cases hstf : i = .stf
  · rw [hstf]
    rfl
  by_cases hbpc : i = .bpc ∧ m.testedBit raw m.fetch.2 = false
  · obtain ⟨rfl, ht⟩ := hbpc
    have hperform : m.perform raw .bpc = if m.testedBit raw m.fetch.2 then _ else m.fetch.1.fetch.1 :=
      rfl
    rw [hperform, ht]
    rfl
  have hdest : m.destination? raw m.fetch.2 i ≠ some Register.psw := by
    rw [← (m.store?_fst raw m.fetch.2 m.fetch.1.fetch.2 i).resolve_right hbpc]
    exact hstore
  refine psw_congr hlatches ((writes_perform m raw hstf).ram _ fun hmem => ?_)
  rcases mem_footprint hmem with hstack | hcell | ⟨address, ha, o, ho, heq⟩
  · obtain ⟨_, heq⟩ := Instruction.eq_main_of_mem_stackCells hstack
    cases heq
  · obtain ⟨address, ha, hlocate⟩ := Option.map_eq_some_iff.mp hcell
    have hnat := Ram.eq_of_locate_register hlocate
    rw [Nat.mod_eq_of_lt (toNat_destination_lt ha)] at hnat
    rw [ha] at hdest
    exact hdest (congrArg some (UInt16.toNat_inj.mp hnat))
  · cases heq
    have hnat := Ram.register?_eq_some.mp ho
    rw [show address = Register.psw from UInt16.toNat_inj.mp hnat] at ha
    exact hi ha

theorem setsOnly_processInstruction {m : Machine} (noted : Bool) (h : m.isHalted = false) :
    let program := m.programOf m.cpu.program.latest
    let p := m.cpu.pc
    let i := Instruction.decode (program p)
    (m.store? (program p) (program (p + 1)) (program (p + 2)) i).map Prod.fst ≠ some Register.psw →
      SetsOnly i.flags m (m.processInstruction noted).1 ∧
        (Register.psw ∉ i.registers → (m.processInstruction noted).1.psw = m.psw) := by
  intro program p i hstore
  let n := m.start.fetchOpcode noted
  have hram : n.ram = m.ram := m.ram_fetchOpcode noted
  have hpsw : n.psw = m.psw := psw_congr (congrArg Ram.latches hram) (congrArg (Ram.cell · _) hram)
  have hlow : n.fetch.2 = program (p + 1) := m.low_fetchOpcode noted
  have hnext : n.fetch.1.fetch.2 = program (p + 2) := m.next_fetchOpcode noted
  rw [← store?_congr hram, ← hlow, ← hnext] at hstore
  have hsame (hi : Register.psw ∉ i.registers) : (n.perform (program p) i).psw = m.psw :=
    (psw_perform n (program p) hi hstore).trans hpsw
  rw [processInstruction_eq noted h]
  refine ⟨?_, hsame⟩
  by_cases hi : Register.psw ∈ i.registers
  · intro k hk hf
    exact (setsOnly_perform n (program p) hi k hk hf).trans (congrArg (·.byte.bit k) hpsw)
  · exact .of_eq (hsame hi)

theorem SetsOnly.mem_of_flag_ne {m n : Machine} {flags : List Flag} (h : SetsOnly flags m n)
    {f : Flag} (hne : n.flag f ≠ m.flag f) : f ∈ flags := by
  refine Decidable.of_not_not fun hf => hne (h f.index f.index_lt fun g hg heq => ?_)
  rw [Flag.index_inj.mp heq] at hg
  exact hf hg

theorem SetsOnly.bit_eq {m n : Machine} {i : Instruction} (h : SetsOnly i.flags m n) {k : UInt8}
    (hk : k ∈ [5, 4, 3, 1, 0]) : n.psw.byte.bit k = m.psw.byte.bit k := by
  have hlt : ∀ k ∈ [5, 4, 3, 1, 0], k < (8 : UInt8) := by decide +kernel
  have hfree : ∀ k ∈ [5, 4, 3, 1, 0], ∀ f ∈ [Flag.carry, .auxiliaryCarry, .overflow], f.index ≠ k := by
    decide +kernel
  have hsub : i.flags ⊆ [.carry, .auxiliaryCarry, .overflow] := by
    cases i <;> simp [Instruction.flags]
  exact h k (hlt k hk) fun f hf => hfree k hk f (hsub hf)

/-! ## Service routines -/

theorem psw_poll {m : Machine} (hs : m.poll.2 ≠ some .reset) : m.poll.1.psw = m.psw := by
  refine psw_congr ?_ (cell_poll_of_ne hs (by decide) (by decide))
  rcases poll_fst_of_ne hs with hp | ⟨s, hp⟩
  · rw [hp]
    rfl
  · rw [hp]
    exact enter_latches ..

/-- A reset also drops the latches, so nothing hides that the status word is clear. -/
theorem psw_reset (m : Machine) : m.reset.psw = ⟨0⟩ := by
  have hlatches : m.reset.ram.latches = .replicate 128 none :=
    (Ram.latches_write ..).trans (Ram.latches_write ..)
  rw [psw_eq_getD, hlatches, cell_reset_of_ne m (by decide) (by decide)]
  rfl

theorem psw_poll_of_reset {m : Machine} (hs : m.poll.2 = some .reset) : m.poll.1.psw = ⟨0⟩ := by
  rw [poll_fst_of_snd hs, serve_reset]
  exact psw_reset _

end Machine

/-- **The frame of the status word.** Unless it stores there, an instruction changes no flag of the
status word but its own, and never the bank selections or the bits that are nobody's; pushes, calls
and returns change nothing of it, and neither does the way into a service routine. A reset has no
service routine: where one is served, the status word is cleared. -/
theorem psw_frame (m : Machine) :
    (m.isHalted = false → ∀ noted,
      let program := m.programOf m.cpu.program.latest
      let p := m.cpu.pc
      let i := Instruction.decode (program p)
      let store := m.store? (program p) (program (p + 1)) (program (p + 2)) i
      let n := (m.processInstruction noted).1
      (store.map Prod.fst ≠ some Register.psw →
        (∀ k ∈ [5, 4, 3, 1, 0], n.psw.byte.bit k = m.psw.byte.bit k) ∧
        ∀ f, n.flag f ≠ m.flag f → f ∈ i.flags) ∧
      (i ∈ [.push, .call, .callf, .callr, .ret, .reti] → n.psw = m.psw)) ∧
    (m.poll.2 ≠ some .reset → m.poll.1.psw = m.psw) ∧
    (m.poll.2 = some .reset → m.poll.1.psw = ⟨0⟩) := by
  refine ⟨fun h noted => ?_, Machine.psw_poll, Machine.psw_poll_of_reset⟩
  intro program p i store n
  have hframe := Machine.setsOnly_processInstruction noted h
  constructor
  · intro hstore
    exact ⟨fun _ => (hframe hstore).1.bit_eq, fun _ => (hframe hstore).1.mem_of_flag_ne⟩
  · intro hi
    have hnone : ∀ i ∈ [Instruction.push, .call, .callf, .callr, .ret, .reti],
        (∀ raw low next, m.store? raw low next i = none) ∧ Register.psw ∉ i.registers := by
      simp [Machine.store?, Instruction.registers, Register.sp, Register.psw]
    have hstore : store.map Prod.fst ≠ some Register.psw := by
      rw [show store = none from (hnone i hi).1 _ _ _]
      exact (Option.some_ne_none _).symm
    exact (hframe hstore).2 (hnone i hi).2

/-- A firmware that adds, with all bits of the status word set that no addition changes, and an
interrupt that waits. -/
def addingWithBitsSet : Machine :=
  (Machine.cold #[0x81, 0x7F] (by decide)).runActs
    [.writeRam 0x101 0xBB, .writeRam 0x100 0x01, .writeRam 0x108 0x80, .raise .int2]

/-- All three flags change, and nothing else does; a reset that is served in the interrupt's place
clears all of them. -/
theorem psw_frame_addition :
    let m := addingWithBitsSet
    let n := (m.processInstruction false).1
    let resetting := m.runActs [.raise .reset]
    m.psw = ⟨0xBB⟩ ∧ n.psw = ⟨0x7F⟩ ∧ n.psw.byte.bit 1 = m.psw.byte.bit 1 ∧
      .auxiliaryCarry ∈ (Instruction.decode (m.programOf m.cpu.program.latest m.cpu.pc)).flags ∧
      m.poll.2 = some .int2 ∧ m.poll.1.psw = m.psw ∧
      resetting.poll.2 = some .reset ∧ resetting.poll.1.psw = ⟨0⟩ := by
  intro m n resetting
  have hrun := (psw_frame m).1 (by decide +kernel) false
  obtain ⟨hbits, hflags⟩ := hrun.1 (by decide +kernel)
  have hserved : m.poll.2 = some .int2 := by decide +kernel
  have hpoll : m.poll.2 ≠ some .reset := by
    rw [hserved]
    decide
  have hreset : resetting.poll.2 = some .reset := by decide +kernel
  exact ⟨by decide +kernel, by decide +kernel, hbits 1 (by decide),
    hflags .auxiliaryCarry (by decide +kernel), hserved, (psw_frame m).2.1 hpoll, hreset,
    (psw_frame resetting).2.2 hreset⟩

/-- The way into a reset does not leave the status word alone. -/
theorem reset_clears_psw :
    let m := Machine.idling.runActs [.writeRam 0x101 0x02, .raise .reset]
    Reachable m ∧ m.isHalted = false ∧ m.poll.2 = some .reset ∧ m.psw = ⟨2⟩ ∧
      m.poll.1.psw ≠ m.psw :=
  ⟨Reachable.idling.runActs _, by decide +kernel⟩

end VisualMemory
