/-!
# The instruction set

Every byte is an opcode. Its high nibble picks a row of the opcode map and its low nibble a column:
columns 0 and 1 hold one instruction each, columns 2 to 7 one instruction in a direct or indirect
form, and columns 8 to F one instruction whose operand bits share the opcode byte.

* `Instruction.row`, `Instruction.decode`: the map, and the instruction at a byte.
* `Instruction.cycles`, `Instruction.size`: the time an instruction takes and the bytes it fills.
-/

namespace VisualMemory

/-- Where an instruction finds its variable operand. -/
inductive Operand where
  /-- The byte behind the opcode itself. -/
  | immediate
  /-- A nine-bit RAM address: opcode bit 0 and the byte behind the opcode. -/
  | direct
  /-- A RAM address held in an indirect register. -/
  | indirect
  deriving DecidableEq, Repr

/-- The instructions, those with several operand forms once. -/
inductive Instruction where
  | nop
  | ld (source : Operand)
  | st (target : Operand)
  | mov (target : Operand)
  | push
  | pop
  | xch (cell : Operand)
  | ldc
  | ldf
  | stf
  | add (source : Operand)
  | addc (source : Operand)
  | sub (source : Operand)
  | subc (source : Operand)
  | inc (cell : Operand)
  | dec (cell : Operand)
  | mul
  | div
  | and (source : Operand)
  | or (source : Operand)
  | xor (source : Operand)
  | rol
  | rolc
  | ror
  | rorc
  | set1
  | clr1
  | not1
  | br
  | brf
  | bz
  | bnz
  | bp
  | bpc
  | bn
  | be (source : Operand)
  | bne (source : Operand)
  | dbnz (cell : Operand)
  | jmp
  | jmpf
  | call
  | callf
  | callr
  | ret
  | reti
  deriving DecidableEq, Repr

/-- The form that the low nibble of an opcode stands for. -/
def Operand.ofColumn (column : UInt8) : Operand :=
  if column == 2 || column == 3 then .direct
  else if 4 ≤ column && column ≤ 7 then .indirect
  else .immediate

namespace Instruction

/-! ## The opcode map -/

/-- One row of the opcode map. -/
structure Row where
  /-- Column 0. -/
  first : Instruction
  /-- Column 1. -/
  second : Instruction
  /-- Columns 2 to 7. -/
  operand : Operand → Instruction
  /-- Columns 8 to F. -/
  upper : Instruction

/-- The row for a high nibble. -/
def row (nibble : UInt8) : Row :=
  match nibble.toNat with
  | 0x0 => ⟨nop, br, ld, call⟩
  | 0x1 => ⟨callr, brf, st, call⟩
  | 0x2 => ⟨callf, jmpf, mov, jmp⟩
  | 0x3 => ⟨mul, be .immediate, be, jmp⟩
  | 0x4 => ⟨div, bne .immediate, bne, bpc⟩
  | 0x5 => ⟨ldf, stf, dbnz, bpc⟩
  | 0x6 => ⟨push, push, inc, bp⟩
  | 0x7 => ⟨pop, pop, dec, bp⟩
  | 0x8 => ⟨bz, add .immediate, add, bn⟩
  | 0x9 => ⟨bnz, addc .immediate, addc, bn⟩
  | 0xA => ⟨ret, sub .immediate, sub, not1⟩
  | 0xB => ⟨reti, subc .immediate, subc, not1⟩
  | 0xC => ⟨ror, ldc, xch, clr1⟩
  | 0xD => ⟨rorc, or .immediate, or, clr1⟩
  | 0xE => ⟨rol, and .immediate, and, set1⟩
  | _ => ⟨rolc, xor .immediate, xor, set1⟩

/-- The instruction of an opcode byte. -/
def decode (raw : UInt8) : Instruction :=
  let row := row (raw >>> 4)
  let column := raw &&& 0x0F
  if column == 0 then row.first
  else if column == 1 then row.second
  else if column < 8 then row.operand (.ofColumn column)
  else row.upper

/-! ## Time and space -/

/-- The machine cycles the instruction takes. -/
def cycles : Instruction → Nat
  | nop | ld _ | st _ | xch _
  | add _ | addc _ | sub _ | subc _ | inc _ | dec _
  | and _ | or _ | xor _ | rol | rolc | ror | rorc
  | set1 | clr1 | not1 => 1
  | callr | brf => 4
  | mul | div => 7
  | _ => 2

def size : Instruction → UInt16
  | nop | ldc | ldf | stf | mul | div | rol | rolc | ror | rorc | ret | reti
  | ld .indirect | st .indirect | xch .indirect
  | add .indirect | addc .indirect | sub .indirect | subc .indirect
  | inc .indirect | dec .indirect
  | and .indirect | or .indirect | xor .indirect => 1
  | be _ | bne _ | bp | bpc | bn | brf | callr | callf | jmpf
  | mov .direct | dbnz .direct => 3
  | _ => 2

theorem cycles_pos (i : Instruction) : 0 < i.cycles := by
  cases i <;> simp [cycles]

theorem cycles_le (i : Instruction) : i.cycles ≤ 7 := by
  cases i <;> simp [cycles]

/-- The form of the operand, for an instruction that has several. -/
def operand? : Instruction → Option Operand
  | ld o | st o | mov o | xch o
  | add o | addc o | sub o | subc o | inc o | dec o
  | and o | or o | xor o
  | be o | bne o | dbnz o => some o
  | _ => none

end Instruction

end VisualMemory
