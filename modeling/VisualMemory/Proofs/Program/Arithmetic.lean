import VisualMemory.Proofs.Alu
import VisualMemory.Proofs.Program.Flags

/-!
# Arithmetic of the processor

What the arithmetic instructions leave in accumulator, flags and the registers beside them, in exact
numbers. In a machine that a front end can reach no latch lies over any of these registers, so they
read as they were written.

* `Machine.register_eq_cell`: registers without latches.
* `Machine.exists_perform`: the RAM behind an instruction, from a machine that has fetched its opcode.
* `Machine.Takes`: accumulator and flags are those of a result; `takes_processInstruction`.
* `multibyte_arithmetic`: additions and subtractions, and chains of them.
* `Machine.HasProduct`, `Machine.HasQuotient`: registers and flags behind both, in numbers.
* `Machine.ChangesProduct`: nothing else changes.
* `product_and_quotient`: both instructions, and how one undoes the other.
-/

namespace VisualMemory

open Ram (Cell)

/-! ## Flags of a status word -/

namespace Psw

theorem flag_setFlag (p : Psw) (f g : Flag) (on : Bool) :
    (p.setFlag f on).flag g = if f = g then on else p.flag g := by
  refine (UInt8.bit_setBit p.byte on f.index_lt g.index_lt).trans ?_
  by_cases h : f = g
  · rw [if_pos h, if_pos (congrArg Flag.index h)]
  · rw [if_neg h, if_neg (mt Flag.index_inj.mp h)]
    rfl

section

variable (p : Psw) (r : Alu.Result)

theorem carry_setArithmetic : (p.setArithmetic r).flag .carry = r.carry := by
  rw [setArithmetic, flag_setFlag, if_neg (by decide), flag_setFlag, if_neg (by decide),
    flag_setFlag, if_pos rfl]

theorem auxiliaryCarry_setArithmetic :
    (p.setArithmetic r).flag .auxiliaryCarry = r.auxiliaryCarry := by
  rw [setArithmetic, flag_setFlag, if_neg (by decide), flag_setFlag, if_pos rfl]

theorem overflow_setArithmetic : (p.setArithmetic r).flag .overflow = r.overflow := by
  rw [setArithmetic, flag_setFlag, if_pos rfl]

end

end Psw

namespace Machine

/-! ## Registers without latches -/

section

variable {m : Machine} (h : m.ram.OnlyCounters)

include h

theorem register_eq_cell {address : UInt16} {o : Fin 128} (ha : Ram.register? address = some o)
    (ho : ¬ Ram.IsCounter o) : m.register address = m.ram.cell (.register o) := by
  rw [register, Ram.register?_eq_some.mp ha]
  exact h.read_eq_cell ho

theorem acc_eq_cell : m.acc = m.ram.cell (.register 0) :=
  register_eq_cell h rfl (by decide)

theorem psw_eq_cell : m.psw = ⟨m.ram.cell (.register 1)⟩ :=
  congrArg Psw.mk (register_eq_cell h rfl (by decide))

theorem b_eq_cell : m.register Register.b = m.ram.cell (.register 2) :=
  register_eq_cell h rfl (by decide)

theorem c_eq_cell : m.register Register.c = m.ram.cell (.register 3) :=
  register_eq_cell h rfl (by decide)

end

theorem register_congr {m n : Machine} (h : n.ram = m.ram) : n.register = m.register := by
  funext address
  rw [register, register, h]

theorem flag_congr {m n : Machine} (h : n.ram = m.ram) : n.flag = m.flag := by
  funext f
  rw [flag, flag, psw, psw, register_congr h]

theorem exists_perform {m : Machine} (noted : Bool) (h : m.isHalted = false) :
    let program := m.programOf m.cpu.program.latest
    let raw := program m.cpu.pc
    ∃ k : Machine, k.ram = m.ram ∧ k.fetch.2 = program (m.cpu.pc + 1) ∧
      (m.processInstruction noted).1.ram = (k.perform raw (.decode raw)).ram := by
  intro program raw
  refine ⟨m.start.fetchOpcode noted, m.ram_fetchOpcode noted, m.low_fetchOpcode noted, ?_⟩
  rw [processInstruction_eq noted h]
  rfl

/-! ## Additions and subtractions -/

/-- Accumulator and flags are those of a result. -/
structure Takes (m : Machine) (r : Alu.Result) : Prop where
  acc : m.acc = r.value
  carry : m.flag .carry = r.carry
  auxiliaryCarry : m.flag .auxiliaryCarry = r.auxiliaryCarry
  overflow : m.flag .overflow = r.overflow

theorem Takes.of_psw {m : Machine} {r : Alu.Result} {p : Psw} (hacc : m.acc = r.value)
    (hpsw : m.psw = p.setArithmetic r) : m.Takes r where
  acc := hacc
  carry := (congrArg (Psw.flag · .carry) hpsw).trans (p.carry_setArithmetic r)
  auxiliaryCarry :=
    (congrArg (Psw.flag · .auxiliaryCarry) hpsw).trans (p.auxiliaryCarry_setArithmetic r)
  overflow := (congrArg (Psw.flag · .overflow) hpsw).trans (p.overflow_setArithmetic r)

/-- The value of an operand, given the byte behind the opcode. -/
def operandByte (m : Machine) (raw low : UInt8) : Operand → UInt8
  | .immediate => low
  | o => m.register (m.operandCell raw low o)

theorem takes_storeResult {k n : Machine} (hn : n.ram.OnlyCounters) (r : Alu.Result)
    (hram : n.ram = (k.storeResult r).ram) : n.Takes r := by
  have hne : ¬ Cell.register 1 = .register 0 := by decide
  have hstore : n.ram = ((k.ram.setCell (.register 0) r.value).setCell (.register 1)
      ((k.setAcc r.value).psw.setArithmetic r).byte) := hram
  have hacc : n.acc = r.value := by
    rw [acc_eq_cell hn, hstore, Ram.cell_setCell, if_neg hne, Ram.cell_setCell, if_pos rfl]
  have hpsw : n.psw = (k.setAcc r.value).psw.setArithmetic r := by
    rw [psw_eq_cell hn, hstore, Ram.cell_setCell, if_pos rfl]
  exact .of_psw hacc hpsw

section

variable {m : Machine} (hm : m.Clocked) (noted : Bool) (h : m.isHalted = false)

include hm h

theorem takes_processInstruction {i : Instruction} {o : Operand}
    {op : UInt8 → UInt8 → Bool → Alu.Result} {carry : Bool}
    (hperform : ∀ (k : Machine) raw, k.ram = m.ram →
      k.perform raw i = k.calculate raw o op carry) :
    let program := m.programOf m.cpu.program.latest
    let raw := program m.cpu.pc
    .decode raw = i → (m.processInstruction noted).1.Takes
      (op m.acc (m.operandByte raw (program (m.cpu.pc + 1)) o) carry) := by
  intro program raw hi
  obtain ⟨k, hk, hlow, hram⟩ := exists_perform noted h
  have hvalue : (k.operandValue raw o).2 = m.operandByte raw (program (m.cpu.pc + 1)) o := by
    cases o with
    | immediate => exact hlow
    | direct =>
      show k.register (directAddress raw k.fetch.2) = _
      rw [hlow, register_congr hk]
      rfl
    | indirect =>
      show k.register (k.indirectAddress raw) = m.register (m.indirectAddress raw)
      simp only [indirectAddress, psw, register_congr hk]
  have hacc : (k.operandValue raw o).1.acc = m.acc := by
    have hoperand : (k.operandValue raw o).1.ram = k.ram := by cases o <;> rfl
    rw [acc, register_congr (hoperand.trans hk)]
    rfl
  have hn := hm.outside (runs_processInstruction m noted).outside
  refine takes_storeResult (k := (k.operandValue raw o).1) hn.latches _ (hram.trans ?_)
  show (k.perform raw (.decode raw)).ram = _
  rw [hi, hperform k raw hk, ← hvalue, ← hacc]
  rfl

end

end Machine

/-- **Arithmetic of many bytes.** The results of additions over the bytes of two numbers, each carry
going into the next, are the bytes of their sum; the last flags say whether the sum is too long,
whether it is out of range as a signed number, and whether it carries out of the low half of the
highest byte. The same holds of subtractions and differences. In a reachable machine the
instructions take these results, those with carry from the carry before them. -/
theorem multibyte_arithmetic :
    (∀ lhs rhs : List UInt8, lhs.length = rhs.length → 0 < lhs.length → ∀ carry,
      let n := lhs.length
      let x := littleEndian lhs
      let y := littleEndian rhs
      (∃ last, (Alu.chain Alu.add lhs rhs carry).getLast? = some last ∧
        let sum := (Alu.chain Alu.add lhs rhs carry).map (·.value)
        sum.length = n ∧ littleEndian sum = (x + y + carry.toNat) % 256 ^ n ∧
        (last.carry = true ↔ 256 ^ n ≤ x + y + carry.toNat) ∧
        (last.overflow = true ↔
          Overflows (8 * n) (twosComplement lhs + twosComplement rhs + carry.toNat)) ∧
        (last.auxiliaryCarry = true ↔ CarriesOut (8 * n - 4) x y carry)) ∧
      (∃ last, (Alu.chain Alu.sub lhs rhs carry).getLast? = some last ∧
        let difference := (Alu.chain Alu.sub lhs rhs carry).map (·.value)
        difference.length = n ∧
        (littleEndian difference : Int) = ((x : Int) - y - carry.toNat) % 256 ^ n ∧
        (last.carry = true ↔ x < y + carry.toNat) ∧
        (last.overflow = true ↔
          Overflows (8 * n) (twosComplement lhs - twosComplement rhs - carry.toNat)) ∧
        (last.auxiliaryCarry = true ↔ BorrowsInto (8 * n - 4) x y carry))) ∧
    ∀ m, Reachable m → m.isHalted = false → ∀ noted o,
      let program := m.programOf m.cpu.program.latest
      let raw := program m.cpu.pc
      let i := Instruction.decode raw
      let value := m.operandByte raw (program (m.cpu.pc + 1)) o
      let n := (m.processInstruction noted).1
      (i = .add o → n.Takes (Alu.add m.acc value false)) ∧
      (i = .addc o → n.Takes (Alu.add m.acc value (m.flag .carry))) ∧
      (i = .sub o → n.Takes (Alu.sub m.acc value false)) ∧
      (i = .subc o → n.Takes (Alu.sub m.acc value (m.flag .carry))) := by
  constructor
  · intro lhs rhs hlen hpos carry n x y
    obtain ⟨last, hlast, hsum⟩ := Alu.isSum_chain carry hlen hpos
    obtain ⟨last', hlast', hdiff⟩ := Alu.isDifference_chain carry hlen hpos
    constructor
    · exact ⟨last, hlast, (List.length_map _).trans hsum.length_eq, hsum.value_eq, hsum.carry_iff,
        hsum.overflow_iff, hsum.auxiliaryCarry_iff⟩
    · exact ⟨last', hlast', (List.length_map _).trans hdiff.length_eq, hdiff.value_eq,
        hdiff.carry_iff, hdiff.overflow_iff, hdiff.auxiliaryCarry_iff⟩
  · intro m hr h noted o program raw i value n
    refine ⟨Machine.takes_processInstruction hr.clocked noted h fun _ _ _ => rfl,
      Machine.takes_processInstruction hr.clocked noted h fun k _ hram => ?_,
      Machine.takes_processInstruction hr.clocked noted h fun _ _ _ => rfl,
      Machine.takes_processInstruction hr.clocked noted h fun k _ hram => ?_⟩
    · rw [← Machine.flag_congr hram]
      rfl
    · rw [← Machine.flag_congr hram]
      rfl

/-- A firmware that subtracts with borrow, from a byte that is the smallest negative one. -/
def borrowingFromSmallest : Machine :=
  (Machine.cold #[0xB1, 0xFF] (by decide)).runActs [.writeRam 0x100 0x80, .writeRam 0x101 0x80]

/-- `0x8000 - 0x00FF - 1` has no sign bit any more, so it overflows; and a byte and a borrow that
make 256 together are borrowed again. -/
theorem multibyte_arithmetic_borrowing :
    let results := Alu.chain Alu.sub [0x00, 0x80] [0xFF, 0x00] true
    results.map (·.value) = [0x00, 0x7F] ∧
      Overflows 16 (twosComplement [0x00, 0x80] - twosComplement [0xFF, 0x00] - 1) ∧
      (borrowingFromSmallest.processInstruction false).1.Takes (Alu.sub 0x80 0xFF true) := by
  intro results
  have hr : Reachable borrowingFromSmallest := (Reachable.cold (by decide) _).runActs _
  obtain ⟨last, hlast, -, -, -, hoverflow, -⟩ :=
    (multibyte_arithmetic.1 [0x00, 0x80] [0xFF, 0x00] rfl (by decide) true).2
  have hset : ((Alu.chain Alu.sub [0x00, 0x80] [0xFF, 0x00] true).getLast?.map (·.overflow)) =
      some true := by decide +kernel
  rw [hlast] at hset
  have htakes := (multibyte_arithmetic.2 borrowingFromSmallest hr (by decide +kernel) false
    .immediate).2.2.2 (by decide +kernel)
  exact ⟨by decide +kernel, hoverflow.mp (Option.some.inj hset), htakes⟩

/-! ## Multiplications and divisions -/

namespace Machine

theorem cell_setRegister (m : Machine) {address : UInt16} {o : Fin 128}
    (h : Ram.register? address = some o) (value : UInt8) (c : Cell) :
    (m.setRegister address value).ram.cell c = if .register o = c then value else m.ram.cell c := by
  show (m.ram.write address.toNat value).cell c = _
  rw [Ram.write, Ram.register?_eq_some.mp h, Ram.locate_register, Ram.cell_setCell]

theorem cell_setFlag_of_ne (m : Machine) (f : Flag) (on : Bool) {c : Cell}
    (hc : ¬ .register 1 = c) : (m.setFlag f on).ram.cell c = m.ram.cell c :=
  (m.cell_setRegister rfl _ c).trans (if_neg hc)

theorem flag_setFlag {m : Machine} (h : m.ram.latches.get 1 = none) (f g : Flag) (on : Bool) :
    (m.setFlag f on).flag g = if f = g then on else m.flag g := by
  have hpsw : (m.setFlag f on).psw = m.psw.setFlag f on := by
    refine congrArg Psw.mk ((m.ram.read_write_register 1 _).trans ?_)
    rw [h]
    rfl
  rw [flag, hpsw, Psw.flag_setFlag]
  rfl

theorem flags_setFlag {m : Machine} (h : m.ram.latches.get 1 = none) {f g : Flag} (hne : g ≠ f)
    (on on' : Bool) : ((m.setFlag f on).setFlag g on').flag f = on ∧
      ((m.setFlag f on).setFlag g on').flag g = on' := by
  have h' : (m.setFlag f on).ram.latches.get 1 = none :=
    (congrArg (Vector.get · 1) (Ram.latches_write ..)).trans h
  rw [flag_setFlag h', flag_setFlag h', if_neg hne, if_pos rfl, flag_setFlag h, if_pos rfl]
  exact ⟨rfl, rfl⟩

section

variable (m : Machine)

theorem cells_multiply :
    let product := m.accC.toUInt32 * (m.register Register.b).toUInt32
    m.multiply.ram.cell (.register 2) = (product >>> 16).toUInt8 ∧
      m.multiply.ram.cell (.register 0) = (product >>> 8).toUInt8 ∧
      m.multiply.ram.cell (.register 3) = product.toUInt8 := by
  have hb : Ram.register? Register.b = some 2 := rfl
  have hacc : Ram.register? Register.acc = some 0 := rfl
  have hc : Ram.register? Register.c = some 3 := rfl
  refine ⟨?_, ?_, ?_⟩ <;>
    simp (disch := decide) only [multiply, setAcc, cell_setFlag_of_ne, cell_setRegister _ hb,
      cell_setRegister _ hacc, cell_setRegister _ hc, if_pos, if_neg]

theorem cells_divide :
    let divisor := (m.register Register.b).toUInt16
    (divisor = 0 → m.divide.ram.cell (.register 2) = 0 ∧
      m.divide.ram.cell (.register 0) = 0xFF ∧
      m.divide.ram.cell (.register 3) = m.ram.cell (.register 3)) ∧
    (divisor ≠ 0 → m.divide.ram.cell (.register 2) = (m.accC % divisor).toUInt8 ∧
      m.divide.ram.cell (.register 0) = (m.accC / divisor).highByte ∧
      m.divide.ram.cell (.register 3) = (m.accC / divisor).lowByte) := by
  have hb : Ram.register? Register.b = some 2 := rfl
  have hacc : Ram.register? Register.acc = some 0 := rfl
  have hc : Ram.register? Register.c = some 3 := rfl
  constructor
  · intro hz
    refine ⟨?_, ?_, ?_⟩ <;>
      simp (disch := decide) only [divide, hz, beq_self_eq_true, setAcc, cell_setFlag_of_ne,
        cell_setRegister _ hb, cell_setRegister _ hacc, if_pos, if_neg]
  · intro hz
    have hz' : ((m.register Register.b).toUInt16 == 0) = false := beq_eq_false_iff_ne.mpr hz
    refine ⟨?_, ?_, ?_⟩ <;>
      simp (disch := decide) only [divide, hz', setAcc, cell_setFlag_of_ne,
        cell_setRegister _ hb, cell_setRegister _ hacc, cell_setRegister _ hc, if_pos, if_neg]

theorem flags_multiply (h : m.ram.latches.get 1 = none) :
    let product := m.accC.toUInt32 * (m.register Register.b).toUInt32
    m.multiply.flag .carry = false ∧ m.multiply.flag .overflow = decide (product > 0xFFFF) :=
  flags_setFlag (by simp only [setAcc, setRegister, Ram.latches_write, h]) (by decide) false _

theorem flags_divide (h : m.ram.latches.get 1 = none) :
    m.divide.flag .overflow = ((m.register Register.b).toUInt16 == 0) ∧
      m.divide.flag .carry = false := by
  simp only [divide]
  split
  · rename_i hz
    rw [hz]
    exact flags_setFlag (by simp only [setAcc, setRegister, Ram.latches_write, h]) (by decide) true _
  · rename_i hz
    rw [Bool.eq_false_iff.mpr hz]
    exact flags_setFlag (by simp only [setAcc, setRegister, Ram.latches_write, h]) (by decide) false
      _

end

/-! ### In numbers -/

theorem toNat_product (x : UInt16) (b : UInt8) :
    (x.toUInt32 * b.toUInt32).toNat = x.toNat * b.toNat := by
  have hle : x.toNat * b.toNat ≤ 65535 * 255 :=
    Nat.mul_le_mul (Nat.le_of_lt_succ x.toNat_lt) (Nat.le_of_lt_succ b.toNat_lt)
  rw [UInt32.toNat_mul, UInt16.toNat_toUInt32, UInt8.toNat_toUInt32]
  exact Nat.mod_eq_of_lt (by omega)

theorem bytes_product (x : UInt16) (b : UInt8) :
    let product := x.toUInt32 * b.toUInt32
    65536 * (product >>> 16).toUInt8.toNat + 256 * (product >>> 8).toUInt8.toNat +
      product.toUInt8.toNat = x.toNat * b.toNat := by
  intro product
  have hle : x.toNat * b.toNat ≤ 65535 * 255 :=
    Nat.mul_le_mul (Nat.le_of_lt_succ x.toNat_lt) (Nat.le_of_lt_succ b.toNat_lt)
  have hproduct : product.toNat = x.toNat * b.toNat := toNat_product x b
  have hhigh : (product >>> 16).toNat = product.toNat / 65536 := by
    rw [UInt32.toNat_shiftRight]
    exact Nat.shiftRight_eq_div_pow ..
  have hmiddle : (product >>> 8).toNat = product.toNat / 256 := by
    rw [UInt32.toNat_shiftRight]
    exact Nat.shiftRight_eq_div_pow ..
  rw [UInt32.toNat_toUInt8, UInt32.toNat_toUInt8, UInt32.toNat_toUInt8, hhigh, hmiddle, hproduct]
  omega

/-- The number in accumulator and C. -/
def word (m : Machine) : Nat :=
  256 * m.acc.toNat + (m.register Register.c).toNat

theorem toNat_accC (m : Machine) : m.accC.toNat = m.word :=
  UInt16.toNat_ofBytes ..

/-- `n` holds the product that `m` asks for: all 24 bits of it, B being the highest byte, and an
overflow if it needs B. -/
structure HasProduct (m n : Machine) : Prop where
  value : 65536 * (n.register Register.b).toNat + 256 * n.acc.toNat +
    (n.register Register.c).toNat = m.word * (m.register Register.b).toNat
  carry : n.flag .carry = false
  overflow : n.flag .overflow = decide (0xFFFF < m.word * (m.register Register.b).toNat)

/-- `n` holds the quotient that `m` asks for, and the remainder in B; or in the case of zero what
stands for them, beside an overflow. -/
structure HasQuotient (m n : Machine) : Prop where
  quotient : (m.register Register.b).toNat ≠ 0 → n.word = m.word / (m.register Register.b).toNat
  remainder : (m.register Register.b).toNat ≠ 0 →
    (n.register Register.b).toNat = m.word % (m.register Register.b).toNat
  of_zero : (m.register Register.b).toNat = 0 →
    n.acc = 0xFF ∧ n.register Register.c = m.register Register.c ∧ n.register Register.b = 0
  carry : n.flag .carry = false
  overflow : n.flag .overflow = decide ((m.register Register.b).toNat = 0)

section

variable {m k n : Machine} (h : m.ram.OnlyCounters) (hk : k.ram = m.ram)

include h hk

theorem hasProduct_of_multiply (hram : n.ram = k.multiply.ram) : m.HasProduct n := by
  have hx : k.accC.toNat = m.word := by
    rw [toNat_accC, word, acc, register_congr hk]
    rfl
  have hn : n.ram.OnlyCounters := by
    refine Ram.onlyCounters_of_latches h ?_
    rw [hram, ← hk]
    exact (Keeps.multiply k).latches
  obtain ⟨hhigh, hmiddle, hlow⟩ := cells_multiply k
  obtain ⟨hcarry, hover⟩ := flags_multiply k (hk ▸ h 1 (by decide))
  rw [← flag_congr hram] at hcarry hover
  refine ⟨?_, hcarry, hover.trans (decide_eq_decide.mpr ?_)⟩
  · rw [b_eq_cell hn, acc_eq_cell hn, c_eq_cell hn, hram, hhigh, hmiddle, hlow, bytes_product, hx,
      register_congr hk]
  · rw [gt_iff_lt, UInt32.lt_iff_toNat_lt, toNat_product, hx, register_congr hk]
    exact Iff.rfl

theorem hasQuotient_of_divide (hram : n.ram = k.divide.ram) : m.HasQuotient n := by
  have hx : k.accC.toNat = m.word := by
    rw [toNat_accC, word, acc, register_congr hk]
    rfl
  have hb : (k.register Register.b).toUInt16.toNat = (m.register Register.b).toNat := by
    rw [UInt8.toNat_toUInt16, register_congr hk]
  have hzero : (k.register Register.b).toUInt16 = 0 ↔ (m.register Register.b).toNat = 0 := by
    rw [← hb, ← UInt16.toNat_inj]
    rfl
  have hn : n.ram.OnlyCounters := by
    refine Ram.onlyCounters_of_latches h ?_
    rw [hram, ← hk]
    exact (Keeps.divide k).latches
  obtain ⟨hover, hcarry⟩ := flags_divide k (hk ▸ h 1 (by decide))
  rw [← flag_congr hram] at hcarry hover
  refine ⟨fun hne => ?_, fun hne => ?_, fun heq => ?_, hcarry, hover.trans ?_⟩
  · obtain ⟨-, hhigh, hlow⟩ := (cells_divide k).2 (mt hzero.mp hne)
    rw [word, acc_eq_cell hn, c_eq_cell hn, hram, hhigh, hlow, UInt16.toNat_highByte,
      UInt16.toNat_lowByte, UInt16.toNat_div, hx, hb]
    exact Nat.div_add_mod ..
  · obtain ⟨hr, -, -⟩ := (cells_divide k).2 (mt hzero.mp hne)
    rw [b_eq_cell hn, hram, hr, UInt16.toNat_toUInt8, UInt16.toNat_mod, hx, hb]
    exact Nat.mod_eq_of_lt ((Nat.mod_lt _ (Nat.pos_of_ne_zero hne)).trans (UInt8.toNat_lt _))
  · obtain ⟨hr, hacc, hc⟩ := (cells_divide k).1 (hzero.mpr heq)
    rw [b_eq_cell hn, acc_eq_cell hn, c_eq_cell hn, c_eq_cell h, hram, ← hk]
    exact ⟨hacc, hc, hr⟩
  · rw [Bool.eq_iff_iff, beq_iff_eq, decide_eq_true_iff]
    exact hzero

end

/-! ### As instructions -/

/-- No more has changed from `m` to `n` than the registers of a product, and in the status word
carry and overflow. -/
structure ChangesProduct (m n : Machine) : Prop where
  cell : ∀ c, c ∉ [.register 0, .register 1, .register 2, .register 3] →
    n.ram.cell c = m.ram.cell c
  psw : ∀ k < 8, k ≠ Flag.carry.index → k ≠ Flag.overflow.index →
    n.psw.byte.bit k = m.psw.byte.bit k
  latches : n.ram.latches = m.ram.latches
  flash : n.flash = m.flash

section

variable {m : Machine} (noted : Bool) (h : m.isHalted = false)

include h

theorem hasProduct_processInstruction (hm : m.Clocked)
    (hi : .decode (m.programOf m.cpu.program.latest m.cpu.pc) = Instruction.mul) :
    m.HasProduct (m.processInstruction noted).1 := by
  obtain ⟨k, hk, -, hram⟩ := exists_perform noted h
  rw [hi] at hram
  exact hasProduct_of_multiply hm.latches hk hram

theorem hasQuotient_processInstruction (hm : m.Clocked)
    (hi : .decode (m.programOf m.cpu.program.latest m.cpu.pc) = Instruction.div) :
    m.HasQuotient (m.processInstruction noted).1 := by
  obtain ⟨k, hk, -, hram⟩ := exists_perform noted h
  rw [hi] at hram
  exact hasQuotient_of_divide hm.latches hk hram

theorem changesProduct_processInstruction {i : Instruction}
    (hi : .decode (m.programOf m.cpu.program.latest m.cpu.pc) = i) (hmem : i = .mul ∨ i = .div) :
    m.ChangesProduct (m.processInstruction noted).1 := by
  have hflags := setsOnly_processInstruction noted h
  have hwrites := writes_processInstruction noted h
  dsimp only at hflags hwrites
  rw [hi] at hflags hwrites
  have hstf : i ≠ .stf := by rcases hmem with rfl | rfl <;> decide
  constructor
  · intro c hc
    refine (hwrites hstf).ram c ?_
    rcases hmem with rfl | rfl <;> exact hc
  · intro k hk hcarry hover
    refine (hflags (by rcases hmem with rfl | rfl <;> exact nofun)).1 k hk fun f hf => ?_
    have hf : f = .carry ∨ f = .overflow := by
      rcases hmem with rfl | rfl <;> simpa [Instruction.flags] using hf
    rcases hf with rfl | rfl
    · exact hcarry.symm
    · exact hover.symm
  · exact (runs_processInstruction m noted).outside.latches
  · exact (hwrites hstf).flash

end

/-- A division by a factor takes a product that fits the word back to the other factor. -/
theorem HasProduct.back {m n k l : Machine} (h : m.HasProduct n) (h' : k.HasQuotient l)
    (hacc : k.acc = n.acc) (hc : k.register Register.c = n.register Register.c)
    (hb : k.register Register.b = m.register Register.b) (hne : (m.register Register.b).toNat ≠ 0)
    (hfits : m.word * (m.register Register.b).toNat ≤ 0xFFFF) :
    l.acc = m.acc ∧ l.register Register.c = m.register Register.c ∧ l.register Register.b = 0 := by
  have hword : k.word = m.word * (m.register Register.b).toNat := by
    have hvalue := h.value
    rw [word, hacc, hc]
    omega
  have hquotient : l.word = m.word := by
    rw [h'.quotient (hb ▸ hne), hb, hword, Nat.mul_div_cancel _ (Nat.pos_of_ne_zero hne)]
  have hremainder : (l.register Register.b).toNat = 0 := by
    rw [h'.remainder (hb ▸ hne), hb, hword, Nat.mul_mod_left]
  have hlow := (l.register Register.c).toNat_lt
  have hlow' := (m.register Register.c).toNat_lt
  rw [word, word] at hquotient
  exact ⟨UInt8.toNat_inj.mp (by omega), UInt8.toNat_inj.mp (by omega), UInt8.toNat_inj.mp hremainder⟩

end Machine

/-- **Multiplication and division are exact, and inverse.** With the word `x` in accumulator and C,
a multiplication by B leaves all 24 bits of the product; a division leaves quotient and remainder,
or in the case of zero a fixed accumulator and remainder beside an overflow. Neither changes
anything else. A product that fits the word is undone by a division by the same factor. -/
theorem product_and_quotient {m : Machine} (hr : Reachable m) (h : m.isHalted = false)
    (noted : Bool) :
    let x := 256 * m.acc.toNat + (m.register Register.c).toNat
    let b := (m.register Register.b).toNat
    let i := Instruction.decode (m.programOf m.cpu.program.latest m.cpu.pc)
    let n := (m.processInstruction noted).1
    (i = .mul →
      65536 * (n.register Register.b).toNat + 256 * n.acc.toNat + (n.register Register.c).toNat =
          x * b ∧
        n.flag .carry = false ∧ n.flag .overflow = decide (0xFFFF < x * b)) ∧
    (i = .div → b ≠ 0 →
      let q := 256 * n.acc.toNat + (n.register Register.c).toNat
      let r := (n.register Register.b).toNat
      x = q * b + r ∧ r < b ∧ n.flag .carry = false ∧ n.flag .overflow = false) ∧
    (i = .div → b = 0 →
      n.acc = 0xFF ∧ n.register Register.c = m.register Register.c ∧ n.register Register.b = 0 ∧
        n.flag .carry = false ∧ n.flag .overflow = true) ∧
    (i = .mul ∨ i = .div → m.ChangesProduct n) ∧
    (i = .mul → b ≠ 0 → x * b ≤ 0xFFFF → ∀ k : Machine, Reachable k → k.isHalted = false →
      .decode (k.programOf k.cpu.program.latest k.cpu.pc) = Instruction.div →
      k.acc = n.acc → k.register Register.c = n.register Register.c →
      k.register Register.b = m.register Register.b →
      ∀ noted', let l := (k.processInstruction noted').1
        l.acc = m.acc ∧ l.register Register.c = m.register Register.c ∧
          l.register Register.b = 0) := by
  intro x b i n
  have hproduct (hi : i = .mul) : m.HasProduct n :=
    Machine.hasProduct_processInstruction noted h hr.clocked hi
  have hquotient (hi : i = .div) : m.HasQuotient n :=
    Machine.hasQuotient_processInstruction noted h hr.clocked hi
  refine ⟨fun hi => ?_, fun hi hb => ?_, fun hi hb => ?_, ?_, ?_⟩
  · exact ⟨(hproduct hi).value, (hproduct hi).carry, (hproduct hi).overflow⟩
  · have hdiv := hquotient hi
    intro q r
    have hq : q = x / b := hdiv.quotient hb
    have hrem : r = x % b := hdiv.remainder hb
    refine ⟨?_, ?_, hdiv.carry, hdiv.overflow.trans (decide_eq_false hb)⟩
    · rw [hq, hrem]
      exact (Nat.div_add_mod' x b).symm
    · rw [hrem]
      exact Nat.mod_lt x (Nat.pos_of_ne_zero hb)
  · obtain ⟨hacc, hc, hrem⟩ := (hquotient hi).of_zero hb
    exact ⟨hacc, hc, hrem, (hquotient hi).carry, (hquotient hi).overflow.trans (decide_eq_true hb)⟩
  · exact Machine.changesProduct_processInstruction noted h rfl
  · intro hi hb hfits k hrk hhalted hik hacc hc hfactor noted'
    have hback := Machine.hasQuotient_processInstruction noted' hhalted hrk.clocked hik
    exact (hproduct hi).back hback hacc hc hfactor hb hfits

/-- A firmware that multiplies by the largest factor, gives it to B again and divides. -/
def multiplying : Machine :=
  (Machine.cold #[0x30, 0x23, 0x02, 0xFF, 0x40] (by decide)).runActs
    [.writeRam 0x100 0x01, .writeRam 0x103 0x01, .writeRam 0x102 0xFF]

/-- `257 * 255` just fits the word. -/
theorem product_and_quotient_of_257 :
    let n := (multiplying.processInstruction false).1
    let k := (n.processInstruction false).1
    let l := (k.processInstruction false).1
    n.acc = 0xFF ∧ n.register Register.c = 0xFF ∧ n.flag .overflow = false ∧
      l.acc = 0x01 ∧ l.register Register.c = 0x01 ∧ l.register Register.b = 0 := by
  intro n k l
  have hr : Reachable multiplying := (Reachable.cold (by decide) _).runActs _
  have hrk : Reachable k := (hr.act (.instruction false)).act (.instruction false)
  have hrun := product_and_quotient hr (by decide +kernel) false
  have hover := (hrun.1 (by decide +kernel)).2.2
  have hback := hrun.2.2.2.2 (by decide +kernel) (by decide +kernel) (by decide +kernel) k hrk
    (by decide +kernel) (by decide +kernel) (by decide +kernel) (by decide +kernel)
    (by decide +kernel) false
  have hm : multiplying.acc = 0x01 ∧ multiplying.register Register.c = 0x01 := by decide +kernel
  rw [hm.1, hm.2] at hback
  exact ⟨by decide +kernel, by decide +kernel, hover.trans (by decide +kernel), hback⟩

end VisualMemory
