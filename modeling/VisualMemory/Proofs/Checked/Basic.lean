import VisualMemory.Alu
import VisualMemory.Interrupt.Service
import VisualMemory.Proofs.Bits
import VisualMemory.Proofs.Interrupt.Controller

/-!
# Checked arithmetic

The operations of the machine as a host with overflow checks, bounds checks and debug assertions
carries them out: each either gives its value or stops with a fault.

* `Fault`, `Checked`: what can stop a computation, and computations that may stop.
* `Checked.add`, `Checked.sub`, `Checked.mul`, `Checked.div`, `Checked.rem`, `Checked.index`: one
  checked operation. A shift by a constant cannot fail and is not written out.
* `Checked.bit`, `Checked.setBit`, `Checked.flipBit`, `Checked.bits`: bits of a word, which are
  looked at in a word of 32.
* `Checked.flag`, `Checked.allows`, `Checked.raise` and their kin: the machine's functions of the
  same names, for the status word, the enable register and the pending word.

The lemma about a function with `_eq` behind its name says that it gives what the machine's own
gives, within the range in which it has to.
-/

namespace VisualMemory

open Interrupt (Controller Enable Source)

/-- What stops a computation. -/
inductive Fault where
  | overflow
  | divisionByZero
  | outOfBounds
  | assertion
  /-- A value does not fit the word that it is converted to. -/
  | conversion
  deriving DecidableEq, Repr

/-- A computation that may stop. -/
abbrev Checked (α : Type) := Except Fault α

namespace Checked

variable {α β : Type}

@[simp] theorem ok_bind (a : α) (f : α → Checked β) : (Except.ok a >>= f : Checked β) = f a :=
  rfl

@[simp] theorem pure_eq_ok (a : α) : (pure a : Checked α) = Except.ok a :=
  rfl

/-- Goes on if the condition holds. -/
def require (p : Prop) [Decidable p] (fault : Fault) : Checked Unit :=
  if p then .ok () else .error fault

theorem require_of {p : Prop} [Decidable p] (h : p) (fault : Fault) :
    require p fault = .ok () :=
  if_pos h

theorem foldlM_eq {f : β → α → Checked β} {g : β → α → β} (h : ∀ b a, f b a = .ok (g b a))
    (l : List α) (b : β) : l.foldlM f b = .ok (l.foldl g b) := by
  induction l generalizing b with
  | nil => rfl
  | cons a l ih => rw [List.foldlM_cons, h, ok_bind, ih, List.foldl_cons]

/-! ## Arithmetic -/

/-- A machine word. -/
class Word (α : Type) where
  /-- How many values there are. -/
  size : Nat
  value : α → Nat

instance : Word UInt8 := ⟨UInt8.size, UInt8.toNat⟩

instance : Word UInt16 := ⟨UInt16.size, UInt16.toNat⟩

instance : Word UInt32 := ⟨UInt32.size, UInt32.toNat⟩

instance : Word UInt64 := ⟨UInt64.size, UInt64.toNat⟩

instance {w : Nat} : Word (BitVec w) := ⟨(BitVec.allOnes w).toNat + 1, BitVec.toNat⟩

/-- Sizes and addresses have 64 bits. -/
instance : Word Nat := ⟨UInt64.size, id⟩

variable [Word α]

/-- The sum, if it fits the word. -/
def add [Add α] (a b : α) : Checked α := do
  require (Word.value a + Word.value b < Word.size α) .overflow
  return a + b

/-- The difference, if it is not negative. -/
def sub [Sub α] (a b : α) : Checked α := do
  require (Word.value b ≤ Word.value a) .overflow
  return a - b

/-- The product, if it fits the word. -/
def mul [Mul α] (a b : α) : Checked α := do
  require (Word.value a * Word.value b < Word.size α) .overflow
  return a * b

def div [Div α] (a b : α) : Checked α := do
  require (Word.value b ≠ 0) .divisionByZero
  return a / b

def rem [Mod α] (a b : α) : Checked α := do
  require (Word.value b ≠ 0) .divisionByZero
  return a % b

theorem add_eq [Add α] {a b : α} (h : Word.value a + Word.value b < Word.size α) :
    add a b = .ok (a + b) := by
  rw [add, require_of h]
  rfl

theorem addWord_eq {a b : UInt16} (h : a.toNat + b.toNat < 0x10000) : add a b = .ok (a + b) :=
  add_eq h

theorem sub_eq [Sub α] {a b : α} (h : Word.value b ≤ Word.value a) : sub a b = .ok (a - b) := by
  rw [sub, require_of h]
  rfl

theorem mul_eq [Mul α] {a b : α} (h : Word.value a * Word.value b < Word.size α) :
    mul a b = .ok (a * b) := by
  rw [mul, require_of h]
  rfl

theorem div_eq [Div α] {a b : α} (h : Word.value b ≠ 0) : div a b = .ok (a / b) := by
  rw [div, require_of h]
  rfl

theorem rem_eq [Mod α] {a b : α} (h : Word.value b ≠ 0) : rem a b = .ok (a % b) := by
  rw [rem, require_of h]
  rfl

/-- A place in an array of `size` entries. -/
def index (size i : Nat) : Checked (Fin size) :=
  if h : i < size then .ok ⟨i, h⟩ else .error .outOfBounds

theorem index_eq {size i : Nat} (h : i < size) : index size i = .ok ⟨i, h⟩ :=
  dif_pos h

/-! ## Bits -/

section bits

variable {w : Nat}

/-- The lowest `w` bits of a wide word. -/
def narrow (w : Nat) (v : BitVec 32) : Checked (BitVec w) := do
  require (w < 32) .overflow
  let mask ← sub (1#32 <<< w) 1
  require (Word.value (v &&& mask) < Word.size (BitVec w)) .conversion
  return (v &&& mask).setWidth w

def bit (v : BitVec w) (i : Nat) : Checked Bool := do
  require (i < w) .assertion
  require (i < 32) .overflow
  return (v.setWidth 32 >>> i) &&& 1 == 1

def setBit (v : BitVec w) (i : Nat) (on : Bool) : Checked (BitVec w) := do
  require (i < w) .assertion
  require (i < 32) .overflow
  let mask := 1#32 <<< i
  narrow w (if on then v.setWidth 32 ||| mask else v.setWidth 32 &&& ~~~mask)

def flipBit (v : BitVec w) (i : Nat) : Checked (BitVec w) := do
  require (i < w) .assertion
  require (i < 32) .overflow
  narrow w (v.setWidth 32 ^^^ 1#32 <<< i)

/-- The bits from index `first` to index `last`. -/
def bits (v : BitVec w) (first last : UInt8) : Checked (BitVec w) := do
  let length ← add (← sub last first) 1
  require (last.toNat < w) .assertion
  require (length.toNat < 32 ∧ first.toNat < 32) .overflow
  let mask ← sub (1#32 <<< length.toNat) 1
  narrow w ((v.setWidth 32 >>> first.toNat) &&& mask)

section mask

variable {i : Nat} (hi : i < 32)
include hi

theorem toNat_one_shiftLeft : (1#32 <<< i).toNat = 1 <<< i := by
  rw [BitVec.toNat_shiftLeft, BitVec.toNat_one (by decide), Nat.one_shiftLeft]
  exact Nat.mod_eq_of_lt (Nat.pow_lt_pow_right (by decide) hi)

theorem one_le_one_shiftLeft : (1#32).toNat ≤ (1#32 <<< i).toNat := by
  rw [toNat_one_shiftLeft hi, Nat.one_shiftLeft]
  exact Nat.two_pow_pos i

theorem mask_eq : sub (1#32 <<< i) 1 = .ok ((1#32 <<< i) - 1) :=
  sub_eq (one_le_one_shiftLeft hi)

theorem toNat_mask : ((1#32 <<< i) - 1).toNat = (BitVec.allOnes i).toNat := by
  refine (BitVec.toNat_sub_of_le (BitVec.le_def.mpr (one_le_one_shiftLeft hi))).trans ?_
  rw [toNat_one_shiftLeft hi, Nat.one_shiftLeft, BitVec.toNat_allOnes]
  rfl

end mask

theorem narrow_eq (hw : w < 32) (v : BitVec 32) : narrow w v = .ok (v.setWidth w) := by
  have hmask : ((1#32 <<< w) - 1).setWidth w = BitVec.allOnes w := by
    apply BitVec.eq_of_toNat_eq
    rw [BitVec.toNat_setWidth, toNat_mask hw]
    exact Nat.mod_eq_of_lt (BitVec.isLt _)
  have hfits : Word.value (v &&& ((1#32 <<< w) - 1)) < Word.size (BitVec w) := by
    show (v &&& ((1#32 <<< w) - 1)).toNat < (BitVec.allOnes w).toNat + 1
    rw [BitVec.toNat_and, toNat_mask hw]
    exact Nat.lt_succ_of_le Nat.and_le_right
  rw [narrow, require_of hw, ok_bind, mask_eq hw, ok_bind, require_of hfits, ok_bind,
    BitVec.setWidth_and, hmask, BitVec.and_allOnes, pure_eq_ok]

theorem bit_eq (hw : w ≤ 32) (v : BitVec w) {i : Nat} (hi : i < w) :
    bit v i = .ok (v.getLsbD i) := by
  have hone : (1 : BitVec 32) = BitVec.twoPow 32 0 := rfl
  have hand : ((v.setWidth 32 >>> i) &&& 1 == 1) = v.getLsbD i := by
    rw [Bool.eq_iff_iff, beq_iff_eq, hone, BitVec.and_twoPow, BitVec.getLsbD_ushiftRight,
      BitVec.getLsbD_setWidth, Nat.add_zero, decide_eq_true (Nat.lt_of_lt_of_le hi hw),
      Bool.true_and]
    split
    · rename_i h
      exact ⟨fun _ => h, fun _ => rfl⟩
    · rename_i h
      exact ⟨fun h' => absurd h' (by decide), fun h' => absurd h' h⟩
  rw [bit, require_of hi, ok_bind, require_of (Nat.lt_of_lt_of_le hi hw), ok_bind, hand, pure_eq_ok]

theorem setWidth_back (hw : w < 32) (v : BitVec w) : (v.setWidth 32).setWidth w = v :=
  (BitVec.setWidth_setWidth_of_le v (Nat.le_of_lt hw)).trans (BitVec.setWidth_eq v)

theorem setWidth_one_shiftLeft (i : Nat) (hw : w < 32) :
    (1#32 <<< i).setWidth w = BitVec.twoPow w i := by
  apply BitVec.eq_of_getLsbD_eq
  intro j hj
  have hj' : j < 32 := Nat.lt_trans hj hw
  rw [BitVec.getLsbD_setWidth, ← BitVec.twoPow_eq, BitVec.getLsbD_twoPow, BitVec.getLsbD_twoPow]
  by_cases h : i = j
  · simp [h, hj, hj']
  · simp [h]

theorem setBit_eq (hw : w < 32) (v : BitVec w) {i : Nat} (hi : i < w) (on : Bool) :
    setBit v i on =
      .ok (if on then v ||| BitVec.twoPow w i else v &&& ~~~BitVec.twoPow w i) := by
  rw [setBit, require_of hi, ok_bind, require_of (Nat.lt_trans hi hw), ok_bind, narrow_eq hw]
  cases on with
  | true =>
    rw [if_pos rfl, if_pos rfl, BitVec.setWidth_or, setWidth_back hw, setWidth_one_shiftLeft i hw]
  | false =>
    rw [if_neg Bool.false_ne_true, if_neg Bool.false_ne_true, BitVec.setWidth_and, setWidth_back hw,
      BitVec.setWidth_not (Nat.le_of_lt hw), setWidth_one_shiftLeft i hw]

theorem flipBit_eq (hw : w < 32) (v : BitVec w) {i : Nat} (hi : i < w) :
    flipBit v i = .ok (v ^^^ BitVec.twoPow w i) := by
  rw [flipBit, require_of hi, ok_bind, require_of (Nat.lt_trans hi hw), ok_bind, narrow_eq hw,
    BitVec.setWidth_xor, setWidth_back hw, setWidth_one_shiftLeft i hw]

theorem setWidth_ushiftRight (hw : w < 32) (v : BitVec w) (i : Nat) :
    (v.setWidth 32 >>> i).setWidth w = v >>> i := by
  apply BitVec.eq_of_getLsbD_eq
  intro j hj
  rw [BitVec.getLsbD_setWidth, decide_eq_true hj, Bool.true_and, BitVec.getLsbD_ushiftRight,
    BitVec.getLsbD_ushiftRight, BitVec.getLsbD_setWidth]
  by_cases h : i + j < 32
  · rw [decide_eq_true h, Bool.true_and]
  · rw [BitVec.getLsbD_of_ge v (i + j) (by omega), Bool.and_false]

theorem bits_eq (hw : w < 32) (v : BitVec w) {first last : UInt8} (h : first ≤ last)
    (hl : last.toNat < w) :
    bits v first last =
      .ok ((v >>> first.toNat) &&& ((1#32 <<< (last - first + 1).toNat) - 1).setWidth w) := by
  have hle : first.toNat ≤ last.toNat := h
  have hdiff : (last - first).toNat = last.toNat - first.toNat := UInt8.toNat_sub_of_le _ _ h
  have hlength : (last - first + 1).toNat = last.toNat - first.toNat + 1 := by
    rw [UInt8.toNat_add, hdiff]
    exact Nat.mod_eq_of_lt (by have : (1 : UInt8).toNat = 1 := rfl; omega)
  have hsub : sub last first = .ok (last - first) := sub_eq hle
  have hadd : add (last - first) 1 = .ok (last - first + 1) := by
    apply add_eq
    show (last - first).toNat + 1 < 0x100
    omega
  have hshort : (last - first + 1).toNat < 32 := by omega
  rw [bits, hsub, ok_bind, hadd, ok_bind, require_of hl, ok_bind, require_of (by omega), ok_bind,
    mask_eq hshort, ok_bind, narrow_eq hw, BitVec.setWidth_and, setWidth_ushiftRight hw]

end bits

/-! ## Bytes and words -/

/-- The bit of a byte at an index. -/
def byteBit (b i : UInt8) : Checked Bool :=
  bit b.toBitVec i.toNat

def setByteBit (b i : UInt8) (on : Bool) : Checked UInt8 := do
  return .ofBitVec (← setBit b.toBitVec i.toNat on)

def flipByteBit (b i : UInt8) : Checked UInt8 := do
  return .ofBitVec (← flipBit b.toBitVec i.toNat)

def lowByte (w : UInt16) : Checked UInt8 := do
  return (UInt16.ofBitVec (← bits w.toBitVec 0 7)).toUInt8

section bytes

variable (b : UInt8) {i : UInt8} (hi : i < 8)
include hi

theorem byteBit_eq : byteBit b i = .ok (b.bit i) := by
  rw [byteBit, bit_eq (by decide) _ (UInt8.toNat_lt_eight hi), UInt8.bit_eq_getLsbD b hi]

theorem setByteBit_eq (on : Bool) : setByteBit b i on = .ok (b.setBit i on) := by
  rw [setByteBit, setBit_eq (by decide) _ (UInt8.toNat_lt_eight hi), ok_bind, pure_eq_ok,
    ← UInt8.toBitVec_one_shiftLeft hi, UInt8.setBit]
  cases on <;> rfl

theorem flipByteBit_eq : flipByteBit b i = .ok (b.flipBit i) := by
  rw [flipByteBit, flipBit_eq (by decide) _ (UInt8.toNat_lt_eight hi), ok_bind, pure_eq_ok,
    ← UInt8.toBitVec_one_shiftLeft hi]
  rfl

end bytes

theorem lowByte_eq (w : UInt16) : lowByte w = .ok w.toUInt8 := by
  have hbits := bits_eq (by decide : 16 < 32) w.toBitVec (by decide : (0 : UInt8) ≤ 7) (by decide)
  rw [lowByte, hbits, ok_bind, pure_eq_ok]
  apply congrArg Except.ok
  apply UInt8.toNat_inj.mp
  rw [UInt16.toNat_toUInt8, UInt16.toNat_toUInt8]
  show (w.toNat &&& 2 ^ 8 - 1) % 2 ^ 8 = w.toNat % 2 ^ 8
  rw [Nat.and_two_pow_sub_one_eq_mod, Nat.mod_mod]

/-! ## The status word -/

def flag (p : Psw) (f : Flag) : Checked Bool :=
  byteBit p.byte f.index

def setFlag (p : Psw) (f : Flag) (on : Bool) : Checked Psw := do
  return ⟨← setByteBit p.byte f.index on⟩

def indirectBank (p : Psw) : Checked UInt8 := do
  return .ofBitVec (← bits p.byte.toBitVec 3 4)

def ramBank (p : Psw) : Checked Nat := do
  return if ← byteBit p.byte 1 then 1 else 0

theorem flag_index_lt (f : Flag) : f.index < 8 := by
  cases f <;> decide

theorem flag_eq (p : Psw) (f : Flag) : flag p f = .ok (p.flag f) :=
  byteBit_eq p.byte (flag_index_lt f)

theorem setFlag_eq (p : Psw) (f : Flag) (on : Bool) : setFlag p f on = .ok (p.setFlag f on) := by
  rw [setFlag, setByteBit_eq p.byte (flag_index_lt f)]
  rfl

theorem indirectBank_eq (p : Psw) : indirectBank p = .ok p.indirectBank := by
  rw [indirectBank, bits_eq (by decide) _ (by decide) (by decide)]
  rfl

theorem ramBank_eq (p : Psw) : ramBank p = .ok p.ramBank.val := by
  rw [ramBank, byteBit_eq p.byte (by decide), ok_bind, Psw.ramBank]
  cases p.byte.bit 1 <;> rfl

/-! ## The enable register and the pending word -/

def allows (e : Enable) (s : Source) : Checked Bool :=
  if s.isMaskable then byteBit e.byte 7 else return true

def isPending (c : Controller) (s : Source) : Checked Bool :=
  bit c.word.toBitVec s.index.toNat

def raise (c : Controller) (s : Source) : Checked Controller := do
  return ⟨.ofBitVec (← setBit c.word.toBitVec s.index.toNat true)⟩

def lower (c : Controller) (s : Source) : Checked Controller := do
  return ⟨.ofBitVec (← setBit c.word.toBitVec s.index.toNat false)⟩

theorem allows_eq (e : Enable) (s : Source) : allows e s = .ok (e.allows s) := by
  rw [allows, byteBit_eq e.byte (by decide), Enable.allows, Enable.master]
  cases s.isMaskable <;> rfl

theorem isPending_eq (c : Controller) (s : Source) : isPending c s = .ok (c.isPending s) := by
  rw [isPending, bit_eq (by decide) _ s.index_lt, Controller.isPending_eq_getLsbD]

theorem raise_eq (c : Controller) (s : Source) : raise c s = .ok (c.raise s) := by
  rw [raise, setBit_eq (by decide) _ s.index_lt, ok_bind, if_pos rfl, ← Controller.toBitVec_mask]
  rfl

theorem lower_eq (c : Controller) (s : Source) : lower c s = .ok (c.lower s) := by
  rw [lower, setBit_eq (by decide) _ s.index_lt, ok_bind, if_neg Bool.false_ne_true,
    ← Controller.toBitVec_mask]
  rfl

end Checked

end VisualMemory
