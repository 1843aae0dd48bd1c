import VisualMemory.Proofs.Program.Flow
import VisualMemory.Proofs.Timer.Sound

/-!
# Laws of the stack

The stack lies in bank 0 of main RAM, whatever bank is in use. The pointer moves up before a byte is
pushed and down after one is popped, and wraps at both ends.

* `Ram.stackCell_inj`: different pointers mean different cells.
* `Machine.cell_pushAddress`: all cells after a push of an address.
* `Machine.cell_popAddress`: a pop moves the pointer only.
* `Machine.returnAddress_of_cells`: an address that was pushed is popped again, if its two cells
  were left alone.
-/

namespace VisualMemory

namespace Ram

theorem stackCell_inj {sp sp' : UInt8} : stackCell sp = stackCell sp' ↔ sp = sp' := by
  rw [stackCell, stackCell, Cell.main.injEq, Fin.ext_iff (n := 256)]
  exact (and_iff_right rfl).trans UInt8.toNat_inj

/-- The two cells of an address that is pushed are different, also where the pointer wraps. -/
theorem stackCell_low_ne_high (sp : UInt8) : stackCell (sp + 1) ≠ stackCell (sp + 2) := by
  have hsp : sp + 1 ≠ sp + 2 := by grind
  exact mt stackCell_inj.mp hsp

end Ram

namespace Machine

variable (m : Machine)

theorem ram_push (value : UInt8) :
    (m.push value).ram =
      (m.ram.setCell (Ram.stackCell (m.stackPointer + 1)) value).setCell (.register 0x06)
        (m.stackPointer + 1) :=
  rfl

theorem ram_pop : m.pop.1.ram = m.ram.setCell (.register 0x06) (m.stackPointer - 1) :=
  rfl

theorem stackPointer_eq_cell : m.stackPointer = m.ram.cell (.register 0x06) :=
  rfl

theorem Clocked.stackPointer_eq {m : Machine} (h : m.Clocked) :
    m.register Register.sp = m.stackPointer :=
  h.latches.read_eq_cell (show ¬ Ram.IsCounter 0x06 by decide)

theorem stackPointer_popAddress : m.popAddress.1.stackPointer = m.stackPointer - 2 := by
  show m.pop.1.pop.1.stackPointer = _
  rw [stackPointer_pop, stackPointer_pop]
  grind

/-- A push of an address fills the two cells above the pointer, the low byte below the high one, and
moves the pointer past them. -/
theorem cell_pushAddress (address : UInt16) (c : Ram.Cell) :
    (m.pushAddress address).ram.cell c =
      if .register 0x06 = c then m.stackPointer + 2
      else if Ram.stackCell (m.stackPointer + 2) = c then address.highByte
      else if Ram.stackCell (m.stackPointer + 1) = c then address.lowByte
      else m.ram.cell c := by
  have hsp : m.stackPointer + 1 + 1 = m.stackPointer + 2 := UInt8.add_assoc ..
  rw [pushAddress, ram_push, stackPointer_push, ram_push, hsp, Ram.cell_setCell]
  split
  · rfl
  · rw [Ram.cell_setCell]
    split
    · rfl
    · rw [Ram.cell_setCell, if_neg ‹_›, Ram.cell_setCell]

theorem cell_popAddress (c : Ram.Cell) :
    m.popAddress.1.ram.cell c =
      if .register 0x06 = c then m.stackPointer - 2 else m.ram.cell c := by
  have hsp : m.stackPointer - 1 - 1 = m.stackPointer - 2 := by grind
  show m.pop.1.pop.1.ram.cell c = _
  rw [ram_pop, stackPointer_pop, ram_pop, hsp, Ram.cell_setCell]
  split
  · rfl
  · rw [Ram.cell_setCell, if_neg ‹_›]

theorem returnAddress_of_cells {m : Machine} {sp : UInt8} {address : UInt16}
    (hsp : m.stackPointer = sp + 2)
    (hlow : m.ram.cell (Ram.stackCell (sp + 1)) = address.lowByte)
    (hhigh : m.ram.cell (Ram.stackCell (sp + 2)) = address.highByte) :
    m.returnAddress = address := by
  have hbelow : sp + 2 - 1 = sp + 1 := by grind
  rw [returnAddress, hsp, hbelow, Ram.readStack, Ram.readStack, hlow, hhigh,
    UInt16.ofBytes_highByte_lowByte]

end Machine

end VisualMemory
