import Mathlib.Order.WellFounded
import VisualMemory.Proofs.Program.Mirror
import VisualMemory.Proofs.Reset.History

/-!
# Which images make a machine, and which machine

* `BootError.Applies`, `BootError.IsFirst`: what is wrong with images, and what of it is reported.
* `Machine.boot_eq_error_iff`, `Machine.exists_boot_iff`: when there is no machine, and when there is
  one.
* `Machine.JustBooted`: the cold reset state with its images; `Machine.justBooted_of_boot`.
-/

namespace VisualMemory

/-- The image that a memory is filled from. -/
def Region.image (bios flash : Array UInt8) : Region → Array UInt8
  | .rom => bios
  | .flash => flash

namespace BootError

/-- The fault is there. -/
def Applies (config : Config) (bios flash : Array UInt8) : BootError → Prop
  | .missingFlash => config.direct = true ∧ flash.size = 0
  | .imageTooLarge region size =>
    size = (region.image bios flash).size ∧ region.capacity < size
  | .missingBios => config.direct = false ∧ bios.size = 0

/-- When a fault is looked for. -/
def turn : BootError → Nat
  | .missingFlash => 0
  | .imageTooLarge .rom _ => 1
  | .imageTooLarge .flash _ => 2
  | .missingBios => 3

theorem turn_missingFlash_lt {e : BootError} (h : e ≠ .missingFlash) :
    turn .missingFlash < e.turn := by
  match e with
  | .missingFlash => exact absurd rfl h
  | .imageTooLarge .rom _ | .imageTooLarge .flash _ | .missingBios => exact Nat.succ_pos _

/-- The fault is there, and none that is looked for earlier. -/
structure IsFirst (config : Config) (bios flash : Array UInt8) (e : BootError) : Prop where
  applies : e.Applies config bios flash
  least : ∀ e' : BootError, e'.Applies config bios flash → e.turn ≤ e'.turn

variable {config : Config} {bios flash : Array UInt8} {e e' : BootError}

theorem IsFirst.not_applies (h : e.IsFirst config bios flash) (hturn : e'.turn < e.turn) :
    ¬ e'.Applies config bios flash :=
  fun h' => absurd (h.least e' h') (Nat.not_le.mpr hturn)

theorem size_le_of_not_applies (region : Region)
    (h : ¬ Applies config bios flash (.imageTooLarge region (region.image bios flash).size)) :
    (region.image bios flash).size ≤ region.capacity :=
  Nat.le_of_not_lt fun hlarge => h ⟨rfl, hlarge⟩

/-- If anything is wrong, something is wrong first. -/
theorem Applies.exists_isFirst (h : e.Applies config bios flash) :
    ∃ e' : BootError, e'.IsFirst config bios flash := by
  obtain ⟨e', happlies, hleast⟩ :=
    WellFounded.has_min (measure turn).wf {e : BootError | e.Applies config bios flash} ⟨e, h⟩
  exact ⟨e', happlies, fun d hd => Nat.le_of_not_lt (hleast d hd)⟩

end BootError

theorem Flash.toList_of_ofImage {image : Array UInt8} {chip : Flash}
    (h : ofImage image = .ok chip) :
    chip.bytes.toList = image.toList ++ List.replicate (size - image.size) 0 := by
  unfold ofImage at h
  split at h
  · cases h
    rfl
  · cases h

namespace Machine

section Errors

variable {config : Config} {bios flash : Array UInt8} {journal : Journal}

theorem boot_of_missingFlash (h : config.direct = true ∧ flash.size = 0) :
    boot bios flash config journal = .error .missingFlash := by
  have hempty : flash.isEmpty = true := decide_eq_true h.2
  simp [boot, h.1, hempty, bind, Except.bind, throw, throwThe, MonadExceptOf.throw]

theorem boot_of_not_missingFlash (h : ¬ (config.direct = true ∧ flash.size = 0)) :
    boot bios flash config journal = (do
      let rom ← Rom.ofImage bios
      let flash ← Flash.ofImage flash
      if !config.direct && rom.size == 0 then throw .missingBios
      let m := (unbooted rom flash config journal).reset
      return if config.direct then m.directBoot config.entry else m) := by
  have hfirst : (config.direct && flash.isEmpty) = false := by
    rw [← Bool.not_eq_true, Bool.and_eq_true, Array.isEmpty_iff_size_eq_zero]
    exact h
  rw [boot, hfirst]
  rfl

theorem boot_of_fits (hdirect : ¬ (config.direct = true ∧ flash.size = 0))
    (hrom : bios.size ≤ 0x10000) (hflash : flash.size ≤ Flash.size) :
    boot bios flash config journal =
      if config.direct = false ∧ bios.size = 0 then .error .missingBios
      else
        let m := (unbooted ⟨bios, hrom⟩ (.loaded flash hflash) config journal).reset
        .ok (if config.direct then m.directBoot config.entry else m) := by
  rw [boot_of_not_missingFlash hdirect, Rom.ofImage, dif_pos hrom, Flash.ofImage_of_le hflash]
  by_cases hbios : config.direct = false ∧ bios.size = 0
  · rw [if_pos hbios]
    have hmissing : (!config.direct && (Rom.mk bios hrom).size == 0) = true := by
      simp [hbios, Rom.size]
    simp only [bind, Except.bind, hmissing]
    rfl
  · rw [if_neg hbios]
    have hthere : (!config.direct && (Rom.mk bios hrom).size == 0) = false := by
      simpa [Rom.size] using hbios
    simp only [bind, Except.bind, hthere]
    rfl

/-- The images are looked at in the order of the turns. -/
theorem boot_of_isFirst {e : BootError} (h : e.IsFirst config bios flash) :
    boot bios flash config journal = .error e := by
  match e, h with
  | .missingFlash, h => exact boot_of_missingFlash h.applies
  | .imageTooLarge .rom size, h =>
    have hstart : ¬ (config.direct = true ∧ flash.size = 0) :=
      h.not_applies (BootError.turn_missingFlash_lt nofun)
    obtain ⟨hsize, hlarge⟩ : size = bios.size ∧ 0x10000 < size := h.applies
    obtain rfl := hsize
    rw [boot_of_not_missingFlash hstart, Rom.ofImage, dif_neg (Nat.not_le.mpr hlarge)]
    rfl
  | .imageTooLarge .flash size, h =>
    have hstart : ¬ (config.direct = true ∧ flash.size = 0) :=
      h.not_applies (BootError.turn_missingFlash_lt nofun)
    obtain ⟨hsize, hlarge⟩ : size = flash.size ∧ Flash.size < size := h.applies
    obtain rfl := hsize
    have hrom : bios.size ≤ 0x10000 :=
      BootError.size_le_of_not_applies .rom (h.not_applies Nat.one_lt_two)
    rw [boot_of_not_missingFlash hstart, Rom.ofImage, dif_pos hrom, Flash.ofImage,
      dif_neg (Nat.not_le.mpr hlarge)]
    rfl
  | .missingBios, h =>
    have hstart : ¬ (config.direct = true ∧ flash.size = 0) :=
      h.not_applies (BootError.turn_missingFlash_lt nofun)
    have hrom : bios.size ≤ 0x10000 :=
      BootError.size_le_of_not_applies .rom (h.not_applies (Nat.lt_add_of_pos_left Nat.two_pos))
    have hflash : flash.size ≤ Flash.size :=
      BootError.size_le_of_not_applies .flash (h.not_applies (Nat.lt_succ_self 2))
    have hbios : config.direct = false ∧ bios.size = 0 := h.applies
    rw [boot_of_fits hstart hrom hflash, if_pos hbios]

theorem exists_boot (h : ∀ e : BootError, ¬ e.Applies config bios flash) :
    ∃ m, boot bios flash config journal = .ok m := by
  have hstart : ¬ (config.direct = true ∧ flash.size = 0) := h .missingFlash
  have hrom : bios.size ≤ 0x10000 := BootError.size_le_of_not_applies .rom (h _)
  have hflash : flash.size ≤ Flash.size := BootError.size_le_of_not_applies .flash (h _)
  have hbios : ¬ (config.direct = false ∧ bios.size = 0) := h .missingBios
  rw [boot_of_fits hstart hrom hflash, if_neg hbios]
  exact ⟨_, rfl⟩

theorem exists_boot_iff :
    (∃ m, boot bios flash config journal = .ok m) ↔
      ∀ e : BootError, ¬ e.Applies config bios flash := by
  refine ⟨?_, exists_boot⟩
  rintro ⟨m, hm⟩ e he
  obtain ⟨e', hfirst⟩ := he.exists_isFirst
  cases hm.symm.trans (boot_of_isFirst hfirst)

theorem boot_eq_error_iff {e : BootError} :
    boot bios flash config journal = .error e ↔ e.IsFirst config bios flash := by
  refine ⟨fun h => ?_, boot_of_isFirst⟩
  by_cases hnone : ∀ e : BootError, ¬ e.Applies config bios flash
  · obtain ⟨m, hm⟩ : ∃ m, boot bios flash config journal = .ok m := exists_boot hnone
    cases hm.symm.trans h
  · obtain ⟨d, hd⟩ := Classical.not_forall_not.mp hnone
    obtain ⟨e', hfirst⟩ := hd.exists_isFirst
    cases h.symm.trans (boot_of_isFirst hfirst)
    exact hfirst

end Errors

/-! ## The machine -/

/-- A machine in its cold reset state, with images in its memories: it has run nothing, nothing is
requested or being served, and of its registers only the stack pointer and the bank select register
are set. -/
structure JustBooted (config : Config) (bios flash : Array UInt8) (m : Machine) : Prop where
  stopped : m.cpu.runState = .stopped
  pc : m.cpu.pc = if config.direct then config.entry else 0
  program : m.cpu.program = { current := if config.direct then .flash else .rom }
  frequency : m.cpu.frequency = config.frequency
  direct : m.cpu.direct = config.direct
  instructions : m.cpu.instructions = 0
  idle : m.cpu.level = .idle ∧ m.cpu.services = [] ∧ m.cpu.queue = []
  interrupts : m.interrupts = {}
  timers : m.timer0 = .zero ∧ m.timer1 = .one
  buzzer : m.buzzer = {}
  cell : ∀ c, m.ram.cell c =
    if c = .register 0x06 then 0x7F
    else if c = .register 0x0D then (if config.direct then 1 else 0)
    else 0
  latches : ∀ address, m.ram.latch? address = none
  rom : m.rom.bytes = bios
  flash : m.flash.bytes.toList = flash.toList ++ List.replicate (0x20000 - flash.size) 0

theorem boot_eq_ok_reset {config : Config} {bios flash : Array UInt8} {journal : Journal}
    {m : Machine} (h : boot bios flash config journal = .ok m) :
    ∃ rom chip, Rom.ofImage bios = .ok rom ∧ Flash.ofImage flash = .ok chip ∧
      ∃ journal', m = { (unbooted rom chip config journal).reset.jump
        (if config.direct then config.entry else 0) with journal := journal' } := by
  obtain ⟨rom, chip, hrom, hchip, rfl⟩ := boot_eq_ok h
  refine ⟨rom, chip, hrom, hchip, ?_⟩
  by_cases hdirect : config.direct = true
  · rw [if_pos hdirect, if_pos hdirect, directBoot, reset_reset]
    exact ⟨_, rfl⟩
  · rw [if_neg hdirect, if_neg hdirect]
    exact ⟨_, rfl⟩

theorem ram_reset_unbooted (rom : Rom) (chip : Flash) (config : Config) (journal : Journal) :
    (unbooted rom chip config journal).reset.ram =
      (({} : Ram).setCell (.register 0x06) 0x7F).setCell (.register 0x0D)
        (if config.direct then Bank.flash else Bank.rom).toByte :=
  rfl

theorem cell_empty (c : Ram.Cell) : ({} : Ram).cell c = 0 := by
  cases c <;> exact Vector.getElem_replicate _

theorem cell_reset_unbooted (rom : Rom) (chip : Flash) (config : Config) (journal : Journal)
    (c : Ram.Cell) :
    (unbooted rom chip config journal).reset.ram.cell c =
      if c = .register 0x06 then 0x7F
      else if c = .register 0x0D then (if config.direct then 1 else 0)
      else 0 := by
  rw [ram_reset_unbooted, Ram.cell_setCell, Ram.cell_setCell, cell_empty]
  by_cases hsp : c = .register 0x06
  · simp [hsp]
  · cases config.direct <;> simp [hsp, eq_comm, Bank.toByte]

theorem latch?_reset_unbooted (rom : Rom) (chip : Flash) (config : Config) (journal : Journal)
    (address : UInt16) : (unbooted rom chip config journal).reset.ram.latch? address = none := by
  rw [ram_reset_unbooted, Ram.latch?, Ram.latches_setCell, Ram.latches_setCell]
  cases Ram.register? address with
  | none => rfl
  | some o => exact Vector.getElem_replicate _

theorem justBooted_of_boot {config : Config} {bios flash : Array UInt8} {journal : Journal}
    {m : Machine} (h : boot bios flash config journal = .ok m) : m.JustBooted config bios flash := by
  obtain ⟨rom, chip, hrom, hchip, journal', rfl⟩ := boot_eq_ok_reset h
  exact
    { stopped := rfl
      pc := rfl
      program := rfl
      frequency := rfl
      direct := rfl
      instructions := rfl
      idle := ⟨rfl, rfl, rfl⟩
      interrupts := rfl
      timers := ⟨rfl, rfl⟩
      buzzer := rfl
      cell := cell_reset_unbooted rom chip config journal
      latches := latch?_reset_unbooted rom chip config journal
      rom := Rom.bytes_of_ofImage hrom
      flash := Flash.toList_of_ofImage hchip }

end Machine

end VisualMemory
