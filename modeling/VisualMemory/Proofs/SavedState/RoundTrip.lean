import VisualMemory.Proofs.Act
import VisualMemory.Proofs.Interrupt.Controller
import VisualMemory.Proofs.SavedState.Document
import VisualMemory.SavedState.Memory

/-!
# Saved states are read back as they were

* `Instruction.faithful`, `Interrupt.Service.faithful`, `Ram.faithful` and their kin: each part is
  read from its saved form as it was.
* `Interrupt.Controller.seesOnly` and its kin: which members of a record a part is read from.
* `Machine.restore?_save`: what a restored machine is.
* `saved_state_round_trip`: all of it.
-/

namespace VisualMemory

open Document

/-! ## Named values -/

theorem Bank.faithful : Faithful Bank.toDocument Bank.ofDocument? :=
  fun b => oneOf?_text (by decide) (by cases b <;> decide)

theorem Interrupt.Source.faithful : Faithful Source.toDocument Source.ofDocument? :=
  fun s => oneOf?_text (by decide) s.mem_all

theorem Interrupt.Level.faithful : Faithful Level.toDocument Level.ofDocument? :=
  fun l => oneOf?_text (by decide) (by cases l <;> decide)

theorem Operand.faithful : Faithful Operand.toDocument Operand.ofDocument? :=
  fun o => oneOf?_text (by decide) (by cases o <;> decide)

namespace Instruction

theorem mem_all (i : Instruction) : i ∈ all := by
  cases i with
  | ld o | st o | mov o | xch o | add o | addc o | sub o | subc o | inc o | dec o | and o | or o
  | xor o | be o | bne o | dbnz o => cases o <;> decide
  | _ => decide

theorem ofName?_name (i : Instruction) : ofName? i.name i.operand? = some i := by
  have hall : ∀ i ∈ all, ofName? i.name i.operand? = some i := by decide +kernel
  exact hall i i.mem_all

theorem faithful : Faithful toDocument ofDocument? := by
  intro i
  have hname := i.ofName?_name
  unfold toDocument
  cases hoperand : i.operand? with
  | none => rwa [hoperand] at hname
  | some o =>
    rw [hoperand] at hname
    change (Operand.ofDocument? o.toDocument).bind (fun o => ofName? i.name (some o)) = some i
    rw [Operand.faithful o]
    exact hname

end Instruction

/-! ## Records of a few bytes -/

theorem Psw.faithful : Faithful Psw.toDocument Psw.ofDocument? := by
  intro p
  rw [Psw.ofDocument?, toDocument, byte?_ofByte]
  rfl

theorem Interrupt.Controller.faithful : Faithful Controller.toDocument Controller.ofDocument? := by
  intro c
  have hmembers : c.toDocument.members? ["pending"] = some [some (ofWord c.word)] :=
    members?_record rfl (by decide)
  simp [ofDocument?, hmembers, word?_ofWord c.word]

theorem Interrupt.Controller.seesOnly : SeesOnly ["pending"] Controller.ofDocument? :=
  seesOnly_of_members? fun d d' h => by rw [ofDocument?, ofDocument?, h]

theorem Timer.Prescaler.faithful : Faithful Prescaler.toDocument Prescaler.ofDocument? := by
  intro p
  have hmembers : p.toDocument.members? ["count"] = some [some (ofWord p.count)] :=
    members?_record rfl (by decide)
  simp [ofDocument?, hmembers, word?_ofWord p.count]

theorem Buzzer.faithful : Faithful Buzzer.toDocument Buzzer.ofDocument? := by
  intro b
  have hmembers : b.toDocument.members? ["period", "enabled"] =
      some [some (ofByte b.period), some (boolean b.enabled)] :=
    members?_record rfl (by decide)
  simp [ofDocument?, hmembers, byte?_ofByte b.period, boolean?_boolean b.enabled]

theorem BankLatch.faithful : Faithful BankLatch.toDocument BankLatch.ofDocument? := by
  intro l
  have hpending : (l.pending.elim .null Bank.toDocument).optional? Bank.ofDocument? =
      some l.pending :=
    optional?_elim Bank.faithful (fun _ => nofun) l.pending
  have hmembers : l.toDocument.members? ["current", "pending"] =
      some [some l.current.toDocument, some (l.pending.elim .null Bank.toDocument)] :=
    members?_record rfl (by decide)
  simp [ofDocument?, hmembers, Bank.faithful l.current, hpending]

theorem BankLatch.seesOnly : SeesOnly ["current", "pending"] BankLatch.ofDocument? :=
  seesOnly_of_members? fun d d' h => by rw [ofDocument?, ofDocument?, h]

namespace Timer.Control

def names : List String :=
  ["high_run", "low_run", "long_mode", "external", "high_overflow", "high_irq_enable",
    "low_overflow", "low_irq_enable"]

theorem faithful : Faithful toDocument ofDocument? := by
  intro c
  have hmembers : c.toDocument.members? names =
      some [some (boolean c.highRun), some (boolean c.lowRun), some (boolean c.longMode),
        some (boolean c.external), some (boolean c.highOverflow), some (boolean c.highIrqEnable),
        some (boolean c.lowOverflow), some (boolean c.lowIrqEnable)] :=
    members?_record rfl (by decide)
  unfold ofDocument?
  rw [← names, hmembers]
  rfl

theorem seesOnly : SeesOnly names ofDocument? :=
  seesOnly_of_members? fun d d' h => by
    rw [ofDocument?, ofDocument?, ← names, h]

end Timer.Control

namespace Interrupt.Service

def names : List String :=
  ["source", "return_pc", "psw", "previous_level"]

theorem faithful : Faithful toDocument ofDocument? := by
  intro s
  have hmembers : s.toDocument.members? names =
      some [some s.source.toDocument, some (ofWord s.returnPc), some s.psw.toDocument,
        some s.previousLevel.toDocument] :=
    members?_record rfl (by decide)
  unfold ofDocument?
  rw [← names, hmembers]
  simp [Source.faithful s.source, word?_ofWord s.returnPc, Psw.faithful s.psw,
    Level.faithful s.previousLevel]

theorem seesOnly : SeesOnly names ofDocument? :=
  seesOnly_of_members? fun d d' h => by
    rw [ofDocument?, ofDocument?, ← names, h]

end Interrupt.Service

/-! ## Memories -/

theorem Rom.faithful : Faithful Rom.toDocument Rom.ofDocument? := by
  intro rom
  have hmembers : rom.toDocument.members? ["data"] =
      some [some (list (rom.bytes.toList.map ofByte))] :=
    members?_record rfl (by decide)
  simp [ofDocument?, hmembers, mapM_map byte?_ofByte rom.bytes.toList, rom.size_le]

theorem Flash.faithful : Faithful Flash.toDocument Flash.ofDocument? := by
  intro flash
  have hmembers : flash.toDocument.members? ["data"] = some [some (ofVector ofByte flash.bytes)] :=
    members?_record rfl (by decide)
  simp [ofDocument?, hmembers, vector?_ofVector byte?_ofByte _ flash.bytes]

namespace Ram

theorem cell_main {ram : Ram} {bank : Fin 2} {offset : Fin 256} {i : Nat} (hi : i < 512)
    (h : bank.val * 256 + offset.val = i) : ram.cell (.main bank offset) = ram.main[i] := by
  subst h
  rfl

theorem cell_xram {ram : Ram} {bank : Fin 3} {offset : Fin 128} {i : Nat} (hi : i < 384)
    (h : bank.val * 128 + offset.val = i) : ram.cell (.xram bank offset) = ram.xram[i] := by
  subst h
  rfl

/-- The banks of main RAM, one behind the other, are main RAM. -/
theorem slice_main (ram : Ram) :
    (ram.slice (Cell.main 0) ++ ram.slice (Cell.main 1) : Vector UInt8 512) = ram.main := by
  apply Vector.ext
  intro i hi
  rw [Vector.getElem_append]
  split
  next hlow =>
    rw [slice, Vector.getElem_ofFn]
    exact cell_main hi (Nat.zero_add i)
  next hhigh =>
    rw [slice, Vector.getElem_ofFn]
    exact cell_main hi (Nat.add_sub_cancel' (Nat.le_of_not_lt hhigh))

theorem slice_xram (ram : Ram) :
    ((ram.slice (Cell.xram 0) ++ ram.slice (Cell.xram 1)) ++ ram.slice (Cell.xram 2) :
      Vector UInt8 384) = ram.xram := by
  apply Vector.ext
  intro i hi
  rw [Vector.getElem_append]
  split
  · rw [Vector.getElem_append]
    split
    next hlow =>
      rw [slice, Vector.getElem_ofFn]
      exact cell_xram hi (Nat.zero_add i)
    next hmiddle =>
      rw [slice, Vector.getElem_ofFn]
      exact cell_xram hi (Nat.add_sub_cancel' (Nat.le_of_not_lt hmiddle))
  next hhigh =>
    rw [slice, Vector.getElem_ofFn]
    exact cell_xram hi (Nat.add_sub_cancel' (Nat.le_of_not_lt hhigh))

theorem faithful : Faithful toDocument ofDocument? := by
  intro ram
  have hlatches : vector? 128 (optional? byte?)
      (ofVector (fun latch => latch.elim null ofByte) ram.latches) = some ram.latches :=
    vector?_ofVector (optional?_elim byte?_ofByte fun _ => nofun) 128 ram.latches
  have hbytes : ∀ {n : Nat} (bytes : Vector UInt8 n), vector? n byte? (ofVector ofByte bytes) =
      some bytes := vector?_ofVector byte?_ofByte _
  have hmembers : ram.toDocument.members? ["main", "sfr", "xram", "counter_latches"] =
      some [
        some (list [ofVector ofByte (ram.slice (Cell.main 0)),
          ofVector ofByte (ram.slice (Cell.main 1))]),
        some (ofVector ofByte ram.registers),
        some (list [ofVector ofByte (ram.slice (Cell.xram 0)),
          ofVector ofByte (ram.slice (Cell.xram 1)), ofVector ofByte (ram.slice (Cell.xram 2))]),
        some (ofVector (fun latch => latch.elim null ofByte) ram.latches)] :=
    members?_record rfl (by decide)
  simp [ofDocument?, hmembers, hbytes, hlatches, slice_main, slice_xram]

end Ram

namespace Machine

theorem restore?_save (m n : Machine) :
    n.restore? m.save = some
      { n with
        ram := m.ram
        flash := m.flash
        interrupts := m.interrupts
        buzzer := m.buzzer } := by
  have hmembers : m.save.members? ["ram", "flash", "interrupts", "buzzer"] =
      some [some m.ram.toDocument, some m.flash.toDocument, some m.interrupts.toDocument,
        some m.buzzer.toDocument] :=
    members?_record rfl (by decide)
  simp [restore?, hmembers, Ram.faithful m.ram, Flash.faithful m.flash,
    Interrupt.Controller.faithful m.interrupts, Buzzer.faithful m.buzzer]

/-- The machine has the memories, the requests and the buzzer of one machine, and all else of
another. -/
structure Restored (m saved current : Machine) : Prop where
  ram : m.ram = saved.ram
  flash : m.flash = saved.flash
  interrupts : m.interrupts = saved.interrupts
  buzzer : m.buzzer = saved.buzzer
  cpu : m.cpu = current.cpu
  timer0 : m.timer0 = current.timer0
  timer1 : m.timer1 = current.timer1
  rom : m.rom = current.rom
  debug : m.debug = current.debug
  journal : m.journal = current.journal

end Machine

/-- **Saved states are read back as they were.** Every part is read from its saved form as it was:
RAM with all its banks and latches, ROM, flash, the pending word with all its bits, and the small
parts. What is read from a record does not depend on the order of its members or on others beside
them, and is read again from its own saved form. And a machine that has gone on after its state was
saved gets back its memories, its requests and its buzzer, so that they read as they did then, while
processor and timers go on as they are. -/
theorem saved_state_round_trip :
    (Faithful Ram.toDocument Ram.ofDocument? ∧ Faithful Rom.toDocument Rom.ofDocument? ∧
      Faithful Flash.toDocument Flash.ofDocument? ∧
      Faithful Interrupt.Controller.toDocument Interrupt.Controller.ofDocument? ∧
      Faithful Buzzer.toDocument Buzzer.ofDocument? ∧
      Faithful BankLatch.toDocument BankLatch.ofDocument? ∧
      Faithful Timer.Control.toDocument Timer.Control.ofDocument? ∧
      Faithful Timer.Prescaler.toDocument Timer.Prescaler.ofDocument? ∧
      Faithful Psw.toDocument Psw.ofDocument? ∧
      Faithful Instruction.toDocument Instruction.ofDocument? ∧
      Faithful Interrupt.Service.toDocument Interrupt.Service.ofDocument?) ∧
    (SeesOnly ["pending"] Interrupt.Controller.ofDocument? ∧
      SeesOnly ["current", "pending"] BankLatch.ofDocument? ∧
      SeesOnly Timer.Control.names Timer.Control.ofDocument? ∧
      SeesOnly Interrupt.Service.names Interrupt.Service.ofDocument?) ∧
    (∀ members,
      (∀ c, Interrupt.Controller.ofDocument? (.record members) = some c →
        Interrupt.Controller.ofDocument? c.toDocument = some c) ∧
      (∀ l, BankLatch.ofDocument? (.record members) = some l →
        BankLatch.ofDocument? l.toDocument = some l) ∧
      (∀ c, Timer.Control.ofDocument? (.record members) = some c →
        Timer.Control.ofDocument? c.toDocument = some c) ∧
      ∀ s, Interrupt.Service.ofDocument? (.record members) = some s →
        Interrupt.Service.ofDocument? s.toDocument = some s) ∧
    ∀ (m : Machine) (acts : List Act), ∃ r, (m.runActs acts).restore? m.save = some r ∧
      r.Restored m (m.runActs acts) ∧
      (∀ address, r.ram.read address = m.ram.read address ∧
        r.ram.readRaw address = m.ram.readRaw address ∧ r.flash.read address = m.flash.read address) ∧
      (∀ bank offset, r.flash.readBanked bank offset = m.flash.readBanked bank offset) ∧
      ∀ source, r.interrupts.isPending source = m.interrupts.isPending source := by
  refine ⟨⟨Ram.faithful, Rom.faithful, Flash.faithful, Interrupt.Controller.faithful,
      Buzzer.faithful, BankLatch.faithful, Timer.Control.faithful, Timer.Prescaler.faithful,
      Psw.faithful, Instruction.faithful, Interrupt.Service.faithful⟩,
    ⟨Interrupt.Controller.seesOnly, BankLatch.seesOnly, Timer.Control.seesOnly,
      Interrupt.Service.seesOnly⟩,
    fun members => ⟨fun c _ => Interrupt.Controller.faithful c, fun l _ => BankLatch.faithful l,
      fun c _ => Timer.Control.faithful c, fun s _ => Interrupt.Service.faithful s⟩,
    fun m acts => ⟨_, Machine.restore?_save m (m.runActs acts), ?_, ?_⟩⟩
  · exact ⟨rfl, rfl, rfl, rfl, rfl, rfl, rfl, rfl, rfl, rfl⟩
  · exact ⟨fun _ => ⟨rfl, rfl, rfl⟩, fun _ _ => rfl, fun _ => rfl⟩

/-- A pending word is read from a record with another member in front of it. -/
theorem saved_state_round_trip_of_other :
    Interrupt.Controller.ofDocument? (.record [("level", .null), ("pending", .integer 0x8001)]) =
      Interrupt.Controller.ofDocument? (.record [("pending", .integer 0x8001)]) :=
  saved_state_round_trip.2.1.1 _ [("level", .null)] _ (List.Perm.swap _ _ _) (by decide)

end VisualMemory
