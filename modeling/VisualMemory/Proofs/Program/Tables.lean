import VisualMemory.Proofs.Block
import VisualMemory.Proofs.Program.Arithmetic

/-!
# Tables in flash

Programs store bytes in flash and read them back in two ways: as table bytes of flash,
whose address has seventeen bits like that of a store, and as table bytes and instructions of the
program memory, of which flash shows its bank 0. All three have to agree after any stores.

* `Flash.bankedAddress_eq_iff`: a bank and an offset in it are one address and no other.
* `Flash.Store`, `Flash.after`: a store, and the chip after many. `Flash.held`: the byte that is read
  then, in terms of the last store to its address; `readBanked_after`.
* `Machine.toNat_tableAddress`: the table pointer as a number.
* `Act.stores`, `Machine.stores`: the stores that acts make. `flash_runActs`: nothing else changes
  flash.
* `flash_keeps_stores`: what programs read.
-/

namespace VisualMemory

namespace Flash

/-! ## Addresses -/

theorem toNat_bank (bank : UInt8) : (bank &&& 1).toNat = (bank.bit 0).toNat := by
  revert bank
  exact forall_byte (by decide +kernel)

theorem bankedAddress_lt (bank : UInt8) (offset : UInt16) : bankedAddress bank offset < size := by
  have hbank := Bool.toNat_le (bank.bit 0)
  have hoffset := offset.toNat_lt
  rw [bankedAddress, toNat_bank, size]
  omega

/-- No two addresses are one, and of the bank register only bit 0 counts. -/
theorem bankedAddress_eq_iff {bank bank' : UInt8} {offset offset' : UInt16} :
    bankedAddress bank offset = bankedAddress bank' offset' ↔
      bank.bit 0 = bank'.bit 0 ∧ offset = offset' := by
  have hoffset := offset.toNat_lt
  have hoffset' := offset'.toNat_lt
  have hbank : (bank.bit 0).toNat = (bank'.bit 0).toNat ↔ bank.bit 0 = bank'.bit 0 := by
    generalize bank.bit 0 = b, bank'.bit 0 = b'
    revert b b'
    decide
  rw [bankedAddress, bankedAddress, toNat_bank, toNat_bank, ← UInt16.toNat_inj, ← hbank]
  omega

theorem readBanked_writeBanked (flash : Flash) (bank bank' : UInt8) (offset offset' : UInt16)
    (value : UInt8) :
    (flash.writeBanked bank offset value).readBanked bank' offset' =
      if bank.bit 0 = bank'.bit 0 ∧ offset = offset' then value
      else flash.readBanked bank' offset' := by
  rw [readBanked, writeBanked, read_write, Nat.mod_eq_of_lt (bankedAddress_lt ..),
    Nat.mod_eq_of_lt (bankedAddress_lt ..)]
  exact if_congr bankedAddress_eq_iff rfl rfl

/-! ## Stores -/

/-- A store: the bank register, the table pointer and the accumulator that it is made with. -/
structure Store where
  bank : UInt8
  address : UInt16
  value : UInt8
  deriving DecidableEq

/-- Whether a store goes to an address of a bank. -/
def Store.hits (s : Store) (bank : UInt8) (address : UInt16) : Bool :=
  s.bank.bit 0 == bank.bit 0 && s.address == address

theorem Store.hits_iff {s : Store} {bank : UInt8} {address : UInt16} :
    s.hits bank address = true ↔ s.bank.bit 0 = bank.bit 0 ∧ s.address = address := by
  rw [hits, Bool.and_eq_true, beq_iff_eq, beq_iff_eq]

/-- The chip after stores, one after the other. -/
def after (flash : Flash) (stores : List Store) : Flash :=
  stores.foldl (fun flash s => flash.writeBanked s.bank s.address s.value) flash

/-- The byte that the last store to an address has left there, or that of the chip if there is no
store to it. -/
def held (flash : Flash) (stores : List Store) (bank : UInt8) (address : UInt16) : UInt8 :=
  ((stores.filter (·.hits bank address)).getLast?.map (·.value)).getD (flash.readBanked bank address)

theorem after_append (flash : Flash) (stores stores' : List Store) :
    flash.after (stores ++ stores') = (flash.after stores).after stores' :=
  List.foldl_append

theorem readBanked_after (flash : Flash) (stores : List Store) (bank : UInt8) (address : UInt16) :
    (flash.after stores).readBanked bank address = flash.held stores bank address := by
  induction stores using List.reverseRecOn with
  | nil => rfl
  | append_singleton stores s ih =>
    rw [after_append]
    show ((flash.after stores).writeBanked s.bank s.address s.value).readBanked bank address = _
    rw [readBanked_writeBanked, ih, held, held, List.filter_append]
    by_cases h : s.bank.bit 0 = bank.bit 0 ∧ s.address = address
    · rw [if_pos h, List.filter_singleton, Store.hits_iff.mpr h, cond_true, List.getLast?_concat]
      rfl
    · rw [if_neg h, List.filter_singleton, Bool.eq_false_iff.mpr (mt Store.hits_iff.mp h), cond_false,
        List.append_nil]

theorem held_filter (flash : Flash) (stores : List Store) (bank : UInt8) (address : UInt16) :
    flash.held (stores.filter (·.bank.bit 0 == bank.bit 0)) bank address =
      flash.held stores bank address := by
  have hsame : (stores.filter (·.bank.bit 0 == bank.bit 0)).filter (·.hits bank address) =
      stores.filter (·.hits bank address) := by
    rw [List.filter_filter]
    refine List.filter_congr fun s _ => ?_
    rw [Store.hits]
    cases s.bank.bit 0 == bank.bit 0 <;> simp
  rw [held, held, hsame]

end Flash

/-! ## The stores of acts -/

open Flash (Store)

namespace Machine

theorem toNat_tableAddress (m : Machine) :
    m.tableAddress.toNat =
      256 * (m.register Register.trh).toNat + (m.register Register.trl).toNat :=
  UInt16.toNat_ofBytes ..

def storesOf (m : Machine) (i : Instruction) : List Store :=
  if i = .stf then [⟨m.register Register.fpr, m.tableAddress, m.acc⟩] else []

/-- The instruction that a processor does next. -/
def nextInstruction (m : Machine) : Instruction :=
  .decode (m.programOf m.cpu.program.latest m.cpu.pc)

def nextStores (m : Machine) : List Store :=
  if m.isHalted then [] else m.storesOf m.nextInstruction

def stepsStores (m : Machine) : Nat → List Store
  | 0 => []
  | steps + 1 => m.nextStores ++ m.step.1.stepsStores steps

end Machine

/-- The stores to flash that programs make in an act, in order. -/
def Act.stores (m : Machine) : Act → List Store
  | step | instruction _ => m.nextStores
  | runFor cycles => m.stepsStores (m.stepsFor cycles.toNat)
  | execute raw => m.storesOf (.decode raw)
  | _ => []

/-- Whether a front end writes to program memory itself. -/
def Act.writesFlash : Act → Bool
  | writeFlash _ _ | writeProgram _ _ => true
  | _ => false

namespace Machine

def stores (m : Machine) : List Act → List Store
  | [] => []
  | a :: acts => a.stores m ++ (a.run m).stores acts

theorem flash_perform (m : Machine) (raw : UInt8) (i : Instruction) :
    (m.perform raw i).flash = m.flash.after (m.storesOf i) := by
  by_cases h : i = .stf
  · rw [storesOf, if_pos h, h]
    rfl
  · rw [storesOf, if_neg h]
    exact (writes_perform m raw h).flash

theorem flash_processInstruction (m : Machine) (noted : Bool) :
    (m.processInstruction noted).1.flash = m.flash.after m.nextStores := by
  cases h : m.isHalted with
  | true =>
    rw [processInstruction_of_halted noted h, nextStores, h]
    rfl
  | false =>
    rw [processInstruction_eq noted h, nextStores, h, if_neg Bool.false_ne_true]
    show ((m.start.fetchOpcode noted).perform _ _).flash = _
    rw [flash_perform, fetchOpcode_eq]
    rfl

theorem flash_step_eq (m : Machine) : m.step.1.flash = m.flash.after m.nextStores := by
  show m.advance.1.poll.1.flash = _
  rw [flash_poll, ← flash_processInstruction m m.debug]
  exact (passes_elapse ..).flash

theorem flash_runSteps (m : Machine) (elapsed steps : Nat) :
    (m.runSteps elapsed steps).1.flash = m.flash.after (m.stepsStores steps) := by
  induction steps generalizing m elapsed with
  | zero => rfl
  | succ steps ih =>
    rw [stepsStores, Flash.after_append, ← flash_step_eq]
    exact ih m.step.1 _

end Machine

open Machine in
theorem Act.flash_run {a : Act} (h : a.writesFlash = false) (m : Machine) :
    (a.run m).flash = m.flash.after (a.stores m) := by
  cases a with
  | step => exact flash_step_eq m
  | runFor cycles =>
    show (m.runOn 0 cycles.toNat).1.flash = _
    rw [runOn_eq_runSteps]
    exact flash_runSteps ..
  | instruction noted => exact flash_processInstruction m noted
  | execute raw => exact flash_perform m raw _
  | poll => exact flash_poll m
  | stepTimer0 | tickTimer0 => exact (passes_takeTimer0 m _).flash
  | stepTimer1 | tickTimer1 => exact (passes_takeTimer1 m _).flash
  | writeFlash | writeProgram => cases h
  | _ => rfl

namespace Machine

theorem flash_runActs (m : Machine) {acts : List Act} (hacts : ∀ a ∈ acts, a.writesFlash = false) :
    (m.runActs acts).flash = m.flash.after (m.stores acts) := by
  induction acts generalizing m with
  | nil => rfl
  | cons a acts ih =>
    rw [stores, Flash.after_append, ← Act.flash_run (hacts a (List.mem_cons_self ..))]
    exact ih _ fun b hb => hacts b (List.mem_cons_of_mem _ hb)

/-! ## Table instructions -/

section

variable {m : Machine} (hc : m.Clocked) (noted : Bool)

include hc

/-- What an instruction writes to the accumulator last is what is read there. -/
theorem acc_of_setAcc {value : UInt8} {k : Machine}
    (hram : (m.processInstruction noted).1.ram = (k.setAcc value).ram) :
    (m.processInstruction noted).1.acc = value := by
  have hclocked := hc.outside (runs_processInstruction m noted).outside
  have hacc : Ram.register? Register.acc = some 0 := rfl
  rw [acc_eq_cell hclocked.latches, hram, setAcc, cell_setRegister k hacc, if_pos rfl]

variable (h : m.isHalted = false)

include h

theorem acc_ldf (hi : m.nextInstruction = .ldf) :
    (m.processInstruction noted).1.acc =
      m.flash.readBanked (m.register Register.fpr) m.tableAddress := by
  refine acc_of_setAcc (k := m.start.fetchOpcode noted) hc noted ?_
  rw [processInstruction_eq noted h]
  show ((m.start.fetchOpcode noted).perform _ m.nextInstruction).ram = _
  rw [hi, fetchOpcode_eq]
  rfl

theorem acc_ldc (hi : m.nextInstruction = .ldc) :
    (m.processInstruction noted).1.acc =
      m.programOf m.cpu.program.latest (m.tableAddress + m.acc.toUInt16) := by
  refine acc_of_setAcc (k := m.start.fetchOpcode noted) hc noted ?_
  rw [processInstruction_eq noted h]
  show ((m.start.fetchOpcode noted).perform _ m.nextInstruction).ram = _
  rw [hi]
  show ((m.start.fetchOpcode noted).setAcc ((m.start.fetchOpcode noted).readProgram _)).ram = _
  rw [readProgram_fetchOpcode, fetchOpcode_eq]
  rfl

omit hc in
/-- A store to the other bank is none to the program. -/
theorem programOf_stf (hi : m.nextInstruction = .stf) (hbank : (m.register Register.fpr).bit 0 = true)
    (bank : Bank) : (m.processInstruction noted).1.programOf bank = m.programOf bank := by
  cases bank with
  | rom =>
    funext p
    exact congrArg (Rom.read · _) (runs_processInstruction m noted).outside.rom
  | flash =>
    funext p
    show (m.processInstruction noted).1.flash.readBanked 0 p = m.flash.readBanked 0 p
    rw [flash_processInstruction, nextStores, h, if_neg Bool.false_ne_true, storesOf, if_pos hi,
      Flash.readBanked_after, ← Flash.held_filter, List.filter_singleton, hbank]
    rfl

end

end Machine

open Machine in
/-- **Flash keeps what programs store.** After any acts in which no front end writes to flash, a
table byte of flash is the one that the last store to its address has left, or was there before if
there is no such store; bit 0 of the bank register and the table pointer make up the address, and no
two addresses are one. The bytes of a program in flash, and the table bytes that it reads of program
memory, are those of bank 0, so that stores to bank 1 change none of them. -/
theorem flash_keeps_stores {m : Machine} (hr : Reachable m) {acts : List Act}
    (hacts : ∀ a ∈ acts, a.writesFlash = false) (noted : Bool) :
    let held := m.flash.held (m.stores acts)
    let n := m.runActs acts
    let k := (n.processInstruction noted).1
    (n.isHalted = false → n.nextInstruction = .ldf →
      k.acc = held (n.register Register.fpr) n.tableAddress) ∧
    (∀ bank bank' offset offset',
      Flash.bankedAddress bank offset = Flash.bankedAddress bank' offset' ↔
        bank.bit 0 = bank'.bit 0 ∧ offset = offset') ∧
    (n.bank = .flash → n.fetch.2 = held 0 n.cpu.pc) ∧
    (n.isHalted = false → n.cpu.program.latest = .flash →
      n.processInstruction noted = (Reading.instruction (held 0) n noted).value ∧
      (n.nextInstruction = .ldc → k.acc = held 0 (n.tableAddress + n.acc.toUInt16))) ∧
    (∀ p, held 0 p = m.flash.held ((m.stores acts).filter (·.bank.bit 0 == false)) 0 p) ∧
    (n.isHalted = false → n.nextInstruction = .stf → (n.register Register.fpr).bit 0 = true →
      k.programOf = n.programOf) := by
  intro held n k
  have hheld (bank : UInt8) : n.flash.readBanked bank = held bank := by
    funext address
    rw [flash_runActs m hacts, Flash.readBanked_after]
  have hprogram : n.programOf .flash = held 0 := hheld 0
  have hclocked : n.Clocked := (hr.runActs acts).clocked
  refine ⟨fun h hi => ?_, fun _ _ _ _ => Flash.bankedAddress_eq_iff, fun hbank => ?_,
    fun h hlatest => ⟨?_, fun hi => ?_⟩, fun p => ?_, fun h hi hbank => ?_⟩
  · rw [acc_ldf hclocked noted h hi, hheld]
  · show n.readProgram n.cpu.pc = _
    rw [readProgram_eq, hbank, hprogram]
  · rw [Reading.value_instruction noted h, hlatest, hprogram]
  · rw [acc_ldc hclocked noted h hi, hlatest, hprogram]
  · exact (Flash.held_filter ..).symm
  · exact funext (programOf_stf noted h hi hbank)

/-- A firmware that stores twice and then reads a table byte of flash. -/
def storingFirmware : Machine :=
  .cold #[0x51, 0x51, 0x50] (by decide)

/-- The two stores go to the last bytes of both banks; of the bank register bit 0 counts, so the
first of them is read back. -/
theorem flash_keeps_stores_at_end :
    let acts : List Act := [.writeRam 0x104 0xFF, .writeRam 0x105 0xFF,
      .writeRam 0x154 0x03, .writeRam 0x100 0xAA, .instruction false,
      .writeRam 0x154 0x02, .writeRam 0x100 0xBB, .instruction false, .writeRam 0x154 0x01]
    ((storingFirmware.runActs acts).processInstruction false).1.acc = 0xAA := by
  intro acts
  have hr : Reachable storingFirmware := .cold (by decide) _
  have hacts : ∀ a ∈ acts, a.writesFlash = false := by decide
  have hload := (flash_keeps_stores hr hacts false).1
  exact (hload (by decide +kernel) (by decide +kernel)).trans (by decide +kernel)

end VisualMemory
