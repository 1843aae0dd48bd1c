import VisualMemory.Proofs.Interrupt.Poll
import VisualMemory.Proofs.Program.Recast

/-!
# Firmware images repeat through the address space

Every path to a program byte folds the address in the same way, and no program writes to ROM. So a
short image cannot be told from the image of full size that repeats it, nor a missing one from an
image of ones, as long as nobody loads other bytes into the ROM.

* `mirrored`: the image of full size.
* `Act.answer`: what an act tells the front end.
* `Machine.Mirrors`: the machines differ in ROM only, and their ROMs read the same; `Mirrors.act` and
  `Mirrors.answer_eq`: this stays so, and all answers are the same.
* `rom_mirroring`: what that says about two boots.
-/

namespace VisualMemory

open Interrupt (Source Controller)

/-- The image of full size in which an image repeats; without an image, all ones. -/
def mirrored (image : Array UInt8) : Array UInt8 :=
  Array.ofFn fun i : Fin 0x10000 => image[i.val % image.size]?.getD 0xFF

theorem size_mirrored (image : Array UInt8) : (mirrored image).size = 0x10000 :=
  Array.size_ofFn

theorem getElem_mirrored (image : Array UInt8) {i : Nat} (h : i < (mirrored image).size) :
    (mirrored image)[i] = image[i % image.size]?.getD 0xFF :=
  Array.getElem_ofFn h

theorem mirrored_empty : mirrored #[] = Array.replicate 0x10000 0xFF := by
  apply Array.ext
  · rw [size_mirrored, Array.size_replicate]
  · intro i hi hi'
    rw [getElem_mirrored, Array.getElem_replicate]
    rfl

theorem Rom.read_eq (rom : Rom) (address : Nat) :
    rom.read address = rom.bytes[address % rom.bytes.size]?.getD 0xFF := by
  unfold read
  split
  · rename_i hpos
    rw [Array.getElem?_eq_getElem (Nat.mod_lt _ hpos)]
    rfl
  · rename_i hempty
    rw [Array.getElem?_eq_none (Nat.le_trans (Nat.le_of_not_lt hempty) (Nat.zero_le _))]
    rfl

theorem Rom.bytes_of_ofImage {image : Array UInt8} {rom : Rom} (h : ofImage image = .ok rom) :
    rom.bytes = image := by
  unfold ofImage at h
  split at h
  · cases h
    rfl
  · cases h

/-- A ROM with the image of full size reads as it did with the shorter one. -/
theorem Rom.readsAs_mirrored {rom full : Rom} (h : full.bytes = mirrored rom.bytes) :
    full.ReadsAs rom := by
  have hsize : full.bytes.size = 0x10000 := by rw [h, size_mirrored]
  intro address
  have hplace : address.toNat % full.bytes.size = address.toNat := by
    rw [hsize]
    exact Nat.mod_eq_of_lt address.toNat_lt
  have hlt : address.toNat < (mirrored rom.bytes).size := by
    rw [size_mirrored]
    exact address.toNat_lt
  rw [read_eq, read_eq, hplace, h, Array.getElem?_eq_getElem hlt, getElem_mirrored]
  rfl

/-! ## Answers -/

/-- Whether an act loads bytes into the ROM. -/
def Act.loadsRom : Act → Bool
  | loadRom _ _ => true
  | _ => false

/-- What a front end can be told. -/
inductive Answer where
  | nothing
  | cycles (k : Nat)
  | progress (p : Progress)
  | byte (b : UInt8)
  | served (s : Option Source)
  deriving DecidableEq

/-- What an act tells the front end. -/
def Act.answer (m : Machine) : Act → Answer
  | step => .cycles m.step.2
  | runFor cycles => .cycles (m.runFor cycles.toNat).2
  | instruction noted => .progress (m.processInstruction noted).2
  | fetch => .byte m.fetch.2
  | poll => .served m.poll.2
  | _ => .nothing

namespace Machine

/-- As long as no bytes are loaded into their ROMs, the two machines stay the same but for the ROM,
give the same answers, and have the same program bytes. -/
def Indistinguishable (m n : Machine) : Prop :=
  ∀ acts : List Act, (∀ a ∈ acts, a.loadsRom = false) →
    n.runActs acts = { m.runActs acts with rom := (n.runActs acts).rom } ∧
    (n.runActs acts).readProgram = (m.runActs acts).readProgram ∧
    ∀ a : Act, a.answer (n.runActs acts) = a.answer (m.runActs acts)

/-! ## Machines that differ in ROM -/

/-- `n` is `m` with another ROM that reads the same. -/
structure Mirrors (m n : Machine) : Prop where
  rest : n = { m with rom := n.rom }
  reads : n.rom.ReadsAs m.rom

namespace Mirrors

variable {m n : Machine} (h : Mirrors m n)

include h

theorem eq_recast : n = m.recast n.rom m.interrupts m.cpu.queue :=
  h.rest

theorem exists_rom : ∃ r : Rom, r.ReadsAs m.rom ∧ n = { m with rom := r } :=
  ⟨n.rom, h.reads, h.rest⟩

theorem readProgram_eq : n.readProgram = m.readProgram := by
  rw [h.eq_recast]
  exact readProgram_recast h.reads ..

/-- What adds requests at most, whatever the ROM, keeps the machines the same but for the ROM. -/
theorem map {f : Machine → Machine} {l : List Source}
    (hf : ∀ r : Rom, r.ReadsAs m.rom → f (m.recast r m.interrupts m.cpu.queue) =
      (f m).recast r (l.foldl (·.raise ·) m.interrupts) m.cpu.queue) : Mirrors (f m) (f n) := by
  have hm : f m = (f m).recast m.rom (l.foldl (·.raise ·) m.interrupts) m.cpu.queue :=
    hf m.rom fun _ => rfl
  have hn : f n = (f m).recast n.rom (l.foldl (·.raise ·) m.interrupts) m.cpu.queue := by
    rw [← hf n.rom h.reads, ← h.eq_recast]
  constructor
  · rw [hn, hm]
    rfl
  · rw [hn, hm]
    exact h.reads

theorem advance_eq : n.advance =
    (m.advance.1.recast n.rom (m.stepRaised.foldl (·.raise ·) m.interrupts) m.cpu.queue,
      m.advance.2) := by
  rw [h.eq_recast]
  exact advance_recast h.reads ..

theorem advance : Mirrors m.advance.1 n.advance.1 :=
  h.map (f := (·.advance.1)) fun _ hr => congrArg Prod.fst (advance_recast hr _ _)

theorem poll : Mirrors m.poll.1 n.poll.1 ∧ n.poll.2 = m.poll.2 := by
  obtain ⟨r, hr, rfl⟩ := h.exists_rom
  cases hnext : m.accept.next? with
  | none =>
    have hnext' : { m with rom := r }.accept.next? = none := hnext
    rw [poll_of_none hnext, poll_of_none hnext']
    exact ⟨⟨rfl, hr⟩, rfl⟩
  | some s =>
    have hnext' : { m with rom := r }.accept.next? = some s := hnext
    rw [poll_of_some hnext, poll_of_some hnext']
    refine ⟨?_, rfl⟩
    by_cases hs : s = .reset
    · rw [hs, serve_reset, serve_reset]
      exact ⟨rfl, hr⟩
    · rw [serve_of_ne hs, serve_of_ne hs]
      exact ⟨rfl, hr⟩

theorem step : m.step.2 = n.step.2 ∧ Mirrors m.step.1 n.step.1 := by
  refine ⟨?_, h.advance.poll.1⟩
  show m.advance.2 = n.advance.2
  rw [h.advance_eq]

theorem runFor (cycles : Nat) : Mirrors (m.runFor cycles).1 (n.runFor cycles).1 ∧
    (m.runFor cycles).2 = (n.runFor cycles).2 :=
  runOn_related (R := fun _ => Mirrors) (fun _ _ _ _ h => h.step) h 0

theorem progress_eq (noted : Bool) :
    (n.processInstruction noted).2 = (m.processInstruction noted).2 := by
  rw [h.eq_recast, processInstruction_recast h.reads]

/-! ## Acts -/

theorem act {a : Act} (ha : a.loadsRom = false) : Mirrors (a.run m) (a.run n) := by
  by_cases hblind : a.isBlind = true
  · exact h.map (f := a.run) fun _ hr => Act.run_recast hr _ _ hblind
  · cases a with
    | step => exact h.step.2
    | runFor cycles => exact (h.runFor cycles.toNat).1
    | poll => exact h.poll.1
    | loadRom => cases ha
    | reset | directBoot | lower | lowerAll | restore =>
      obtain ⟨r, hr, rfl⟩ := h.exists_rom
      exact ⟨rfl, hr⟩
    | _ => exact absurd rfl hblind

theorem answer_eq (a : Act) : a.answer n = a.answer m := by
  cases a with
  | step => exact congrArg Answer.cycles h.step.1.symm
  | runFor cycles => exact congrArg Answer.cycles (h.runFor cycles.toNat).2.symm
  | instruction noted => exact congrArg Answer.progress (h.progress_eq noted)
  | fetch =>
    have hpc : n.cpu.pc = m.cpu.pc := by rw [h.rest]
    show Answer.byte (n.readProgram n.cpu.pc) = .byte (m.readProgram m.cpu.pc)
    rw [h.readProgram_eq, hpc]
  | poll => exact congrArg Answer.served h.poll.2
  | _ => rfl

omit h in
theorem runActs {m n : Machine} (h : Mirrors m n) {acts : List Act}
    (hacts : ∀ a ∈ acts, a.loadsRom = false) : Mirrors (m.runActs acts) (n.runActs acts) := by
  induction acts generalizing m n with
  | nil => exact h
  | cons a acts ih =>
    exact ih (h.act (hacts a (List.mem_cons_self ..)))
      fun b hb => hacts b (List.mem_cons_of_mem _ hb)

theorem indistinguishable : Indistinguishable m n := by
  intro acts hacts
  have hrun := h.runActs hacts
  exact ⟨hrun.rest, hrun.readProgram_eq, hrun.answer_eq⟩

end Mirrors

/-! ## Boots -/

/-- A boot that succeeds succeeds with any other image that is neither too large nor missing, and
then differs in the ROM only. -/
theorem boot_of_boot {bios bios' flash : Array UInt8} {config : Config} {journal : Journal}
    {m : Machine} (h : boot bios flash config journal = .ok m) (hsize : bios'.size ≤ 0x10000)
    (hpos : 0 < bios'.size) :
    boot bios' flash config journal = .ok { m with rom := ⟨bios', hsize⟩ } := by
  have hrom : Rom.ofImage bios' = .ok ⟨bios', hsize⟩ := dif_pos hsize
  have hfound : ¬ (!config.direct && (Rom.mk bios' hsize).size == 0) = true := by
    have hne : ((Rom.mk bios' hsize).size == 0) = false := beq_false_of_ne (Nat.ne_of_gt hpos)
    rw [hne, Bool.and_false]
    decide
  -- Of the image a boot looks at its size, and at whether there is one.
  unfold boot at h ⊢
  simp only [bind, Except.bind] at h ⊢
  split at h
  · cases h
  · rename_i hdirect
    rw [if_neg hdirect, hrom]
    dsimp only
    split at h
    · cases h
    · split at h
      · cases h
      · rename_i chip hchip
        split at h
        · cases h
        · cases h
          simp only [hfound]
          cases config.direct <;> rfl

end Machine

/-- **Firmware images repeat.** A machine that is booted with a firmware image of at most 64 KiB
cannot be told from one that is booted with the image of 64 KiB in which it repeats: whatever a
front end does to both, other than to load bytes into the ROM, all answers and all state but the ROM
stay the same. Nor can a machine that starts directly without firmware be told from one whose
firmware is all ones. -/
theorem rom_mirroring {bios flash : Array UInt8} {config : Config} {journal : Journal}
    {m : Machine} (h : Machine.boot bios flash config journal = .ok m) :
    (0 < bios.size → ∃ n, Machine.boot (mirrored bios) flash config journal = .ok n ∧
      m.Indistinguishable n) ∧
    (bios = #[] → ∃ n, Machine.boot (.replicate 0x10000 0xFF) flash config journal = .ok n ∧
      m.Indistinguishable n) := by
  have hsize := size_mirrored bios
  have hpos : 0 < (mirrored bios).size := by
    rw [hsize]
    decide
  have hboot := Machine.boot_of_boot h (Nat.le_of_eq hsize) hpos
  have hrom : m.rom.bytes = bios := by
    obtain ⟨rom, chip, hr, -, rfl⟩ := Machine.boot_eq_ok h
    have hbytes := Rom.bytes_of_ofImage hr
    split
    · exact hbytes
    · exact hbytes
  have hfull : m.Indistinguishable { m with rom := ⟨mirrored bios, Nat.le_of_eq hsize⟩ } := by
    refine Machine.Mirrors.indistinguishable ⟨rfl, Rom.readsAs_mirrored ?_⟩
    rw [hrom]
  constructor
  · intro _
    exact ⟨_, hboot, hfull⟩
  · rintro rfl
    rw [← mirrored_empty]
    exact ⟨_, hboot, hfull⟩

/-- A firmware of three bytes, which is a jump. -/
def jumpFirmware : Array UInt8 :=
  #[0x21, 0x12, 0x34]

theorem rom_mirroring_across_end :
    let acts : List Act := [.jump 0xFFFF, .step]
    ∃ n, Machine.boot (mirrored jumpFirmware) #[] {} {} = .ok n ∧
      (n.runActs acts).cpu.pc = 0x2112 := by
  intro acts
  have hboot : Machine.boot jumpFirmware #[] {} {} = .ok (.cold jumpFirmware (by decide)) :=
    Machine.boot_firmware rfl (by decide) (by decide) (Nat.zero_le _)
  obtain ⟨n, hn, hsame⟩ := (rom_mirroring hboot).1 (by decide)
  have hrun := (hsame acts (by decide)).1
  have hpc : ((Machine.cold jumpFirmware (by decide)).runActs acts).cpu.pc = 0x2112 := by
    decide +kernel
  refine ⟨n, hn, ?_⟩
  rw [hrun]
  exact hpc

end VisualMemory
