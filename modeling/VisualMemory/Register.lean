/-!
# Special function registers

The addresses of the registers that the processor and its peripherals use. They lie in the second
half-kilobyte page of the RAM space, from `0x100` to `0x17F`.
-/

namespace VisualMemory.Register

/-! ## Processor -/

def acc : UInt16 := 0x100

/-- Program status word. -/
def psw : UInt16 := 0x101

/-- Multiplier and divisor; high byte of a product, remainder of a division. -/
def b : UInt16 := 0x102

/-- Low byte of the operand and of the result of a multiplication or division. -/
def c : UInt16 := 0x103

/-- Table pointer, low byte. -/
def trl : UInt16 := 0x104

/-- Table pointer, high byte. -/
def trh : UInt16 := 0x105

def sp : UInt16 := 0x106

/-- Power control: bit 0 halts the processor. -/
def pcon : UInt16 := 0x107

/-- Interrupt enable: bit 7 lets maskable interrupts in. -/
def ie : UInt16 := 0x108

/-- Program memory select: bit 0 chooses flash over ROM. -/
def ext : UInt16 := 0x10D

/-! ## Timers -/

def t0con : UInt16 := 0x110

/-- Timer 0 prescaler reload. -/
def t0prr : UInt16 := 0x111

/-- Timer 0 low counter. -/
def t0l : UInt16 := 0x112

/-- Timer 0 low reload. -/
def t0lr : UInt16 := 0x113

def t0h : UInt16 := 0x114

/-- Timer 0 high reload. -/
def t0hr : UInt16 := 0x115

/-- Timer 1 control. -/
def t1cnt : UInt16 := 0x118

/-- Timer 1 low half: reads give the counter, writes set the reload. -/
def t1l : UInt16 := 0x11B

/-- Timer 1 high half: reads give the counter, writes set the reload. -/
def t1h : UInt16 := 0x11D

/-! ## Memory banks -/

/-- XRAM bank select. -/
def xbnk : UInt16 := 0x125

/-- Flash bank of the table instructions, in bit 0. -/
def fpr : UInt16 := 0x154

end VisualMemory.Register
