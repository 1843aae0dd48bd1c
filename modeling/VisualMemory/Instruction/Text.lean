import VisualMemory.Hex
import VisualMemory.Instruction.Basic

/-!
# Instructions as text

* `Instruction.text`: the assembly form, operands by kind (`#i8`, `d9`, `@R`, `b3`, `r8`, `r16`,
  `a12`, `a16`).
* `Instruction.opcodeText`: the opcode byte and the assembly form of its instruction.
-/

namespace VisualMemory

def Operand.text : Operand → String
  | .immediate => "#i8"
  | .direct => "d9"
  | .indirect => "@R"

def Operand.name : Operand → String
  | .immediate => "Immediate"
  | .direct => "Direct"
  | .indirect => "Indirect"

def Operand.all : List Operand := [.immediate, .direct, .indirect]

namespace Instruction

/-- The mnemonic with its first letter in upper case, the name in saved states. -/
def name : Instruction → String
  | nop => "Nop"
  | ld _ => "Ld"
  | st _ => "St"
  | mov _ => "Mov"
  | push => "Push"
  | pop => "Pop"
  | xch _ => "Xch"
  | ldc => "Ldc"
  | ldf => "Ldf"
  | stf => "Stf"
  | add _ => "Add"
  | addc _ => "Addc"
  | sub _ => "Sub"
  | subc _ => "Subc"
  | inc _ => "Inc"
  | dec _ => "Dec"
  | mul => "Mul"
  | div => "Div"
  | and _ => "And"
  | or _ => "Or"
  | xor _ => "Xor"
  | rol => "Rol"
  | rolc => "Rolc"
  | ror => "Ror"
  | rorc => "Rorc"
  | set1 => "Set1"
  | clr1 => "Clr1"
  | not1 => "Not1"
  | br => "Br"
  | brf => "Brf"
  | bz => "Bz"
  | bnz => "Bnz"
  | bp => "Bp"
  | bpc => "Bpc"
  | bn => "Bn"
  | be _ => "Be"
  | bne _ => "Bne"
  | dbnz _ => "Dbnz"
  | jmp => "Jmp"
  | jmpf => "Jmpf"
  | call => "Call"
  | callf => "Callf"
  | callr => "Callr"
  | ret => "Ret"
  | reti => "Reti"

def all : List Instruction :=
  [nop, push, pop, ldc, ldf, stf, mul, div, rol, rolc, ror, rorc, set1, clr1, not1,
    br, brf, bz, bnz, bp, bpc, bn, jmp, jmpf, call, callf, callr, ret, reti] ++
  Operand.all.flatMap fun o =>
    [ld o, st o, mov o, xch o, add o, addc o, sub o, subc o, inc o, dec o, and o, or o, xor o,
      be o, bne o, dbnz o]

/-- The instruction's operands in assembly; empty when it has none. -/
def operandText : Instruction → String
  | ld o | st o | xch o
  | add o | addc o | sub o | subc o | inc o | dec o
  | and o | or o | xor o => o.text
  | mov o => "#i8," ++ o.text
  | push | pop => "d9"
  | set1 | clr1 | not1 => "d9,b3"
  | br | bz | bnz => "r8"
  | brf | callr => "r16"
  | bp | bpc | bn => "d9,b3,r8"
  | be .indirect | bne .indirect => "@R,#i8,r8"
  | be o | bne o | dbnz o => o.text ++ ",r8"
  | jmp | call => "a12"
  | jmpf | callf => "a16"
  | nop | ldc | ldf | stf | mul | div | rol | rolc | ror | rorc | ret | reti => ""

def text (i : Instruction) : String :=
  if i.operandText.isEmpty then i.name.toUpper else i.name.toUpper ++ " " ++ i.operandText

def opcodeText (raw : UInt8) : String :=
  Hex.byte raw ++ "  " ++ (decode raw).text

end Instruction

end VisualMemory
