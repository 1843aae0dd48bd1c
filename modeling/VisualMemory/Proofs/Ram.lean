import VisualMemory.Ram.Basic

/-!
# Laws of RAM

* `Ram.cell_setCell`: the backing store is a map from cells to bytes.
* `Ram.latches_write`, `Ram.latches_writeStack`: no write touches a counter latch.
* `Ram.read_register`, `Ram.readRaw_register`, `Ram.readRaw_write_register`: registers, whose
  cells no bank selection moves.
* `Ram.read_main`: main RAM, in the bank in use.
* `Ram.latch?_latchCounter`, `Ram.read_of_latch?`, `Ram.cell_latchCounter`: what is latched at an
  address is read there, and changes no cell.
-/

namespace VisualMemory.Ram

/-! ## Cells -/

theorem mainPlace_inj {b b' : Fin 2} {o o' : Fin 256} :
    (mainPlace b o).val = (mainPlace b' o').val ↔ b = b' ∧ o = o' := by
  have := o.isLt
  have := o'.isLt
  rw [Fin.ext_iff, Fin.ext_iff]
  simp only [mainPlace]
  omega

theorem xramPlace_inj {b b' : Fin 3} {o o' : Fin 128} :
    (xramPlace b o).val = (xramPlace b' o').val ↔ b = b' ∧ o = o' := by
  have := o.isLt
  have := o'.isLt
  rw [Fin.ext_iff, Fin.ext_iff]
  simp only [xramPlace]
  omega

theorem cell_setCell (ram : Ram) (c d : Cell) (value : UInt8) :
    (ram.setCell c value).cell d = if c = d then value else ram.cell d := by
  cases c with
  | main b o =>
    cases d with
    | main b' o' =>
      simp only [setCell, cell, Cell.main.injEq, ← mainPlace_inj]
      exact Vector.getElem_set _ _
    | _ => rfl
  | register o =>
    cases d with
    | register o' =>
      simp only [setCell, cell, Cell.register.injEq, Fin.ext_iff]
      exact Vector.getElem_set _ _
    | _ => rfl
  | xram b o =>
    cases d with
    | xram b' o' =>
      simp only [setCell, cell, Cell.xram.injEq, ← xramPlace_inj]
      exact Vector.getElem_set _ _
    | _ => rfl

theorem cell_resetRegisters (ram : Ram) (o : Fin 128) :
    ram.resetRegisters.cell (.register o) = 0 := by
  rw [cell, resetRegisters]
  exact Vector.getElem_replicate o.isLt

/-! ## Latches -/

theorem latches_setCell (ram : Ram) (c : Cell) (value : UInt8) :
    (ram.setCell c value).latches = ram.latches := by
  cases c <;> rfl

theorem latches_write (ram : Ram) (address : Nat) (value : UInt8) :
    (ram.write address value).latches = ram.latches :=
  latches_setCell ram _ value

theorem latches_writeStack (ram : Ram) (sp value : UInt8) :
    (ram.writeStack sp value).latches = ram.latches :=
  latches_setCell ram _ value

/-! ## Registers -/

theorem eq_of_locate_register {ram : Ram} {address : Nat} {o : Fin 128}
    (h : ram.locate address = .register o) : address % 512 = 0x100 + o.val := by
  by_cases h1 : address % 512 < 256
  · rw [locate, dif_pos h1] at h
    cases h
  · by_cases h2 : address % 512 < 384
    · rw [locate, dif_neg h1, dif_pos h2, Cell.register.injEq, Fin.ext_iff] at h
      dsimp only at h
      omega
    · rw [locate, dif_neg h1, dif_neg h2] at h
      cases h

theorem locate_register (ram : Ram) (i : Fin 128) : ram.locate (0x100 + i.val) = .register i := by
  have h1 : ¬ (0x100 + i.val) % 512 < 256 := by omega
  have h2 : (0x100 + i.val) % 512 < 384 := by omega
  have h3 : (0x100 + i.val) % 512 - 256 = i.val := by omega
  rw [locate, dif_neg h1, dif_pos h2]
  exact congrArg Cell.register (Fin.ext h3)

theorem readRaw_register (ram : Ram) (i : Fin 128) :
    ram.readRaw (0x100 + i.val) = ram.cell (.register i) :=
  congrArg ram.cell (ram.locate_register i)

theorem read_register (ram : Ram) (i : Fin 128) :
    ram.read (0x100 + i.val) = (ram.latches.get i).getD (ram.cell (.register i)) := by
  simp only [read, locate_register]
  rfl

theorem read_write_register (ram : Ram) (i : Fin 128) (value : UInt8) :
    (ram.write (0x100 + i.val) value).read (0x100 + i.val) = (ram.latches.get i).getD value := by
  rw [read_register, latches_write, write, locate_register, cell_setCell, if_pos rfl]

theorem readRaw_write_register (ram : Ram) (i : Fin 128) (value : UInt8) :
    (ram.write (0x100 + i.val) value).readRaw (0x100 + i.val) = value := by
  rw [readRaw, locate_register, write, locate_register, cell_setCell, if_pos rfl]

theorem readRaw_write_of_ne {i j : Fin 128} (h : i ≠ j) (ram : Ram) (value : UInt8) :
    (ram.write (0x100 + i.val) value).readRaw (0x100 + j.val) = ram.readRaw (0x100 + j.val) := by
  have hne : Cell.register i ≠ Cell.register j := fun he => h (Cell.register.inj he)
  rw [readRaw, readRaw, locate_register, locate_register, write, locate_register, cell_setCell,
    if_neg hne]

/-! ## Main RAM -/

theorem locate_main (ram : Ram) {address : Nat} (h : address < 256) :
    ram.locate address = .main ram.mainBank (.ofNat 256 address) := by
  have hlt : address % 512 < 256 := by omega
  have hoffset : address % 512 = address % 256 := by omega
  rw [locate, dif_pos hlt]
  exact congrArg (Cell.main _) (Fin.ext hoffset)

theorem read_main (ram : Ram) {address : Nat} (h : address < 256) :
    ram.read address = ram.cell (.main ram.mainBank (.ofNat 256 address)) := by
  rw [read, ram.locate_main h]

/-! ## Latches by address -/

theorem register?_eq_some {address : UInt16} {o : Fin 128} :
    register? address = some o ↔ address.toNat = 0x100 + o.val := by
  have ho := o.isLt
  unfold register?
  split
  · rename_i h
    rw [Option.some.injEq, Fin.ext_iff]
    dsimp only
    omega
  · rename_i h
    constructor
    · intro hnone
      cases hnone
    · omega

theorem latch?_of_register? (ram : Ram) {address : UInt16} {o : Fin 128}
    (h : register? address = some o) : ram.latch? address = ram.latches.get o := by
  rw [latch?, h]
  rfl

theorem latch?_of_none (ram : Ram) {address : UInt16} (h : register? address = none) :
    ram.latch? address = none := by
  rw [latch?, h]
  rfl

theorem latch?_congr {ram ram' : Ram} (h : ram'.latches = ram.latches) :
    ram'.latch? = ram.latch? := by
  funext address
  rw [latch?, latch?, h]

theorem latch?_latchCounter (ram : Ram) {address : UInt16} {o : Fin 128}
    (h : register? address = some o) (value : UInt8) (a : UInt16) :
    (ram.latchCounter address value).latch? a = if a = address then some value else ram.latch? a := by
  have hset : ram.latchCounter address value =
      { ram with latches := ram.latches.set o (some value) } := by
    rw [latchCounter, h]
  rw [hset]
  split
  · rename_i heq
    rw [heq, latch?_of_register? _ h]
    exact Vector.getElem_set_self o.isLt
  · rename_i hne
    cases ha : register? a with
    | none => rw [latch?_of_none _ ha, latch?_of_none _ ha]
    | some p =>
      have hop : o.val ≠ p.val := by
        intro hop
        rw [register?_eq_some] at h ha
        exact hne (UInt16.toNat_inj.mp (by omega))
      rw [latch?_of_register? _ ha, latch?_of_register? _ ha]
      exact Vector.getElem_set_ne o.isLt p.isLt hop

theorem read_of_latch? {ram : Ram} {address : UInt16} {value : UInt8}
    (h : ram.latch? address = some value) : ram.read address.toNat = value := by
  cases ho : register? address with
  | none =>
    rw [latch?_of_none _ ho] at h
    cases h
  | some o =>
    rw [latch?_of_register? _ ho] at h
    rw [register?_eq_some.mp ho, read_register, h, Option.getD_some]

theorem cell_latchCounter (ram : Ram) (address : UInt16) (value : UInt8) (c : Cell) :
    (ram.latchCounter address value).cell c = ram.cell c := by
  unfold latchCounter
  split
  · cases c <;> rfl
  · rfl

theorem readRaw_latchCounter (ram : Ram) (address : UInt16) (value : UInt8) (a : Nat) :
    (ram.latchCounter address value).readRaw a = ram.readRaw a := by
  unfold latchCounter
  split
  · rfl
  · rfl

end VisualMemory.Ram
