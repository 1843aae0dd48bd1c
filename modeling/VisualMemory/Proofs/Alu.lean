import Mathlib.Data.Nat.Digits.Lemmas
import VisualMemory.Alu
import VisualMemory.Proofs.Bits

/-!
# Addition and subtraction of long numbers

A program adds numbers of many bytes by adding their bytes from the lowest on and taking each carry
into the next addition. The flags of the last addition are then those of the whole sum.

* `littleEndian`, `twosComplement`: the numbers that bytes stand for, without sign and with one.
* `Alu.add_value`, `Alu.add_auxiliaryCarry`, `Alu.add_overflow` and their kin of `Alu.sub`: one byte,
  in exact arithmetic.
* `Alu.chain`: the results byte by byte. `Alu.chain_induction`: the induction on it.
* `Alu.IsSum`, `Alu.IsDifference`: bytes and last flags are those of a sum or difference.
  `Alu.isSum_chain`, `Alu.isDifference_chain`: so they are.
-/

namespace VisualMemory

/-! ## Numbers in bytes -/

/-- The number that bytes stand for, the lowest first. -/
def littleEndian (bytes : List UInt8) : Nat :=
  Nat.ofDigits 256 (bytes.map UInt8.toNat)

theorem littleEndian_nil : littleEndian [] = 0 :=
  rfl

theorem littleEndian_cons (b : UInt8) (bytes : List UInt8) :
    littleEndian (b :: bytes) = b.toNat + 256 * littleEndian bytes :=
  Nat.ofDigits_cons ..

theorem littleEndian_singleton (b : UInt8) : littleEndian [b] = b.toNat := by
  rw [littleEndian_cons, littleEndian_nil]
  omega

theorem littleEndian_lt (bytes : List UInt8) : littleEndian bytes < 256 ^ bytes.length := by
  have h : ∀ d ∈ bytes.map UInt8.toNat, d < 256 := by
    intro d hd
    obtain ⟨b, -, rfl⟩ := List.mem_map.mp hd
    exact b.toNat_lt
  have hlt := Nat.ofDigits_lt_base_pow_length (by decide : 1 < 256) h
  rwa [List.length_map] at hlt

/-- The signed number that bytes stand for in two's complement, the lowest first. -/
def twosComplement (bytes : List UInt8) : Int :=
  if littleEndian bytes < 2 ^ (8 * bytes.length - 1) then littleEndian bytes
  else littleEndian bytes - 2 ^ (8 * bytes.length)

theorem twosComplement_singleton (b : UInt8) :
    twosComplement [b] = if b.toNat < 128 then (b.toNat : Int) else b.toNat - 256 := by
  rw [twosComplement, littleEndian_singleton]
  rfl

theorem two_pow_sign {n : Nat} (h : 0 < n) : 2 ^ (8 * (n + 1) - 1) = 256 * 2 ^ (8 * n - 1) := by
  have hn : 8 * (n + 1) - 1 = 8 * n - 1 + 8 := by omega
  rw [hn, pow_add, Nat.mul_comm]
  rfl

theorem twosComplement_cons (b : UInt8) {bytes : List UInt8} (h : 0 < bytes.length) :
    twosComplement (b :: bytes) = b.toNat + 256 * twosComplement bytes := by
  have hb := b.toNat_lt
  have hpow : (2 : Int) ^ (8 * (bytes.length + 1)) = 256 * 2 ^ (8 * bytes.length) := by
    rw [Nat.mul_add, pow_add, Int.mul_comm]
    rfl
  rw [twosComplement, twosComplement, littleEndian_cons, List.length_cons, two_pow_sign h, hpow]
  by_cases hsign : littleEndian bytes < 2 ^ (8 * bytes.length - 1)
  · rw [if_pos hsign, if_pos (by omega)]
    push_cast
    rfl
  · rw [if_neg hsign, if_neg (by omega)]
    push_cast
    ring

/-- The number has no two's complement of so many bits. -/
def Overflows (bits : Nat) (x : Int) : Prop :=
  x < -2 ^ (bits - 1) ∨ 2 ^ (bits - 1) ≤ x

theorem overflows_succ {n : Nat} (h : 0 < n) {x y : Int} {b : Nat} (hb : b < 256)
    (hx : x = b + 256 * y) : Overflows (8 * (n + 1)) x ↔ Overflows (8 * n) y := by
  have hpow : (2 : Int) ^ (8 * (n + 1) - 1) = 256 * 2 ^ (8 * n - 1) := by
    exact_mod_cast two_pow_sign h
  rw [Overflows, Overflows, hpow, hx]
  omega

/-- The sum of two numbers and a carry carries out of their lowest bits. -/
def CarriesOut (bits x y : Nat) (carry : Bool) : Prop :=
  2 ^ bits ≤ x % 2 ^ bits + y % 2 ^ bits + carry.toNat

def BorrowsInto (bits x y : Nat) (borrow : Bool) : Prop :=
  x % 2 ^ bits < y % 2 ^ bits + borrow.toNat

theorem add_mul_mod (a x bits : Nat) (ha : a < 256) :
    (a + 256 * x) % 2 ^ (bits + 8) = a + 256 * (x % 2 ^ bits) := by
  have hpow : 2 ^ (bits + 8) = 256 * 2 ^ bits := by rw [pow_add, Nat.mul_comm]; rfl
  have hlt := Nat.mod_lt x (Nat.two_pow_pos bits)
  rw [hpow, Nat.mod_mul, Nat.add_mul_mod_self_left, Nat.mod_eq_of_lt ha,
    Nat.add_mul_div_left _ _ (by decide), Nat.div_eq_of_lt ha, Nat.zero_add]

theorem carriesOut_succ {a b v x y bits : Nat} {c c' : Bool} (ha : a < 256) (hb : b < 256)
    (hv : v < 256) (h : v + 256 * c'.toNat = a + b + c.toNat) :
    CarriesOut (bits + 8) (a + 256 * x) (b + 256 * y) c ↔ CarriesOut bits x y c' := by
  have hpow : 2 ^ (bits + 8) = 256 * 2 ^ bits := by rw [pow_add, Nat.mul_comm]; rfl
  rw [CarriesOut, CarriesOut, add_mul_mod a x bits ha, add_mul_mod b y bits hb, hpow]
  omega

theorem borrowsInto_succ {a b v x y bits : Nat} {c c' : Bool} (ha : a < 256) (hb : b < 256)
    (hv : v < 256) (h : a + 256 * c'.toNat = v + b + c.toNat) :
    BorrowsInto (bits + 8) (a + 256 * x) (b + 256 * y) c ↔ BorrowsInto bits x y c' := by
  rw [BorrowsInto, BorrowsInto, add_mul_mod a x bits ha, add_mul_mod b y bits hb]
  omega

namespace Alu

/-! ## One byte -/

theorem toNat_ofBool (c : Bool) : (UInt8.ofBool c).toNat = c.toNat := by
  cases c <;> rfl

theorem toNat_and_low (b : UInt8) : (b &&& 0x0F).toNat = b.toNat % 16 := by
  rw [UInt8.toNat_and]
  exact Nat.and_two_pow_sub_one_eq_mod b.toNat 4

theorem sign_eq (b : UInt8) : b.bit 7 = decide (128 ≤ b.toNat) := by
  rw [UInt8.bit_eq_getLsbD b (by decide)]
  exact (BitVec.msb_eq_getLsbD_last b.toBitVec).symm.trans (BitVec.msb_eq_decide b.toBitVec)

theorem bit_xor (a b : UInt8) : (a ^^^ b).bit 7 = (a.bit 7 ^^ b.bit 7) := by
  rw [UInt8.bit_eq_getLsbD _ (by decide), UInt8.bit_eq_getLsbD _ (by decide),
    UInt8.bit_eq_getLsbD _ (by decide), UInt8.toBitVec_xor, BitVec.getLsbD_xor]

theorem bit_and (a b : UInt8) : (a &&& b).bit 7 = (a.bit 7 && b.bit 7) := by
  rw [UInt8.bit_eq_getLsbD _ (by decide), UInt8.bit_eq_getLsbD _ (by decide),
    UInt8.bit_eq_getLsbD _ (by decide), UInt8.toBitVec_and, BitVec.getLsbD_and]

section

variable (l r : UInt8) (c : Bool)

theorem add_value :
    (add l r c).value.toNat + 256 * (add l r c).carry.toNat = l.toNat + r.toNat + c.toNat := by
  have hl := l.toNat_lt
  have hr := r.toNat_lt
  have hc := Bool.toNat_le c
  have hvalue : (add l r c).value.toNat = (l.toNat + r.toNat + c.toNat) % 256 := by
    show (l + r + UInt8.ofBool c).toNat = _
    rw [UInt8.toNat_add, UInt8.toNat_add, toNat_ofBool, Nat.mod_add_mod]
  have hcarry : (add l r c).carry = decide (255 < l.toNat + r.toNat + c.toNat) := by
    rw [← toNat_ofBool]
    rfl
  rw [hvalue, hcarry]
  by_cases hover : 255 < l.toNat + r.toNat + c.toNat
  · rw [decide_eq_true hover, Bool.toNat_true]
    omega
  · rw [decide_eq_false hover, Bool.toNat_false]
    omega

theorem sub_value :
    l.toNat + 256 * (sub l r c).carry.toNat = (sub l r c).value.toNat + r.toNat + c.toNat := by
  have hl := l.toNat_lt
  have hr := r.toNat_lt
  have hc := Bool.toNat_le c
  have hvalue : (sub l r c).value.toNat = (512 + l.toNat - r.toNat - c.toNat) % 256 := by
    show (l - r - UInt8.ofBool c).toNat = _
    rw [UInt8.toNat_sub, UInt8.toNat_sub, toNat_ofBool]
    omega
  have hborrow : (sub l r c).carry = decide (l.toNat < r.toNat + c.toNat) := by
    rw [← toNat_ofBool]
    rfl
  rw [hvalue, hborrow]
  by_cases hless : l.toNat < r.toNat + c.toNat
  · rw [decide_eq_true hless, Bool.toNat_true]
    omega
  · rw [decide_eq_false hless, Bool.toNat_false]
    omega

theorem add_auxiliaryCarry :
    (add l r c).auxiliaryCarry = true ↔ CarriesOut 4 l.toNat r.toNat c := by
  have hc := Bool.toNat_le c
  have hsum : ((l &&& 0x0F) + (r &&& 0x0F) + UInt8.ofBool c).toNat =
      l.toNat % 16 + r.toNat % 16 + c.toNat := by
    rw [UInt8.toNat_add, UInt8.toNat_add, toNat_and_low, toNat_and_low, toNat_ofBool]
    omega
  show decide ((l &&& 0x0F) + (r &&& 0x0F) + UInt8.ofBool c > 0x0F) = true ↔
    16 ≤ l.toNat % 16 + r.toNat % 16 + c.toNat
  rw [decide_eq_true_iff, gt_iff_lt, UInt8.lt_iff_toNat_lt, hsum]
  exact Iff.rfl

theorem sub_auxiliaryCarry :
    (sub l r c).auxiliaryCarry = true ↔ BorrowsInto 4 l.toNat r.toNat c := by
  have hc := Bool.toNat_le c
  have hsum : ((r &&& 0x0F) + UInt8.ofBool c).toNat = r.toNat % 16 + c.toNat := by
    rw [UInt8.toNat_add, toNat_and_low, toNat_ofBool]
    omega
  show decide ((l &&& 0x0F) < (r &&& 0x0F) + UInt8.ofBool c) = true ↔
    l.toNat % 16 < r.toNat % 16 + c.toNat
  rw [decide_eq_true_iff, UInt8.lt_iff_toNat_lt, hsum, toNat_and_low]

theorem add_overflow : (add l r c).overflow = true ↔
    Overflows 8 (twosComplement [l] + twosComplement [r] + c.toNat) := by
  have hl := l.toNat_lt
  have hr := r.toNat_lt
  have hvalue := add_value l r c
  have hv := (add l r c).value.toNat_lt
  have hc := Bool.toNat_le c
  have hc' := Bool.toNat_le (add l r c).carry
  show ((l ^^^ (add l r c).value) &&& (r ^^^ (add l r c).value)).bit 7 = true ↔ _ < -128 ∨ 128 ≤ _
  rw [bit_and, bit_xor, bit_xor, sign_eq, sign_eq, sign_eq, Bool.and_eq_true, bne_iff_ne,
    bne_iff_ne, ne_eq, ne_eq, decide_eq_decide, decide_eq_decide, twosComplement_singleton,
    twosComplement_singleton]
  split <;> split <;> omega

theorem sub_overflow : (sub l r c).overflow = true ↔
    Overflows 8 (twosComplement [l] - twosComplement [r] - c.toNat) := by
  have hl := l.toNat_lt
  have hr := r.toNat_lt
  have hvalue := sub_value l r c
  have hv := (sub l r c).value.toNat_lt
  have hc := Bool.toNat_le c
  have hc' := Bool.toNat_le (sub l r c).carry
  show ((l ^^^ r) &&& (l ^^^ (sub l r c).value)).bit 7 = true ↔ _ < -128 ∨ 128 ≤ _
  rw [bit_and, bit_xor, bit_xor, sign_eq, sign_eq, sign_eq, Bool.and_eq_true, bne_iff_ne,
    bne_iff_ne, ne_eq, ne_eq, decide_eq_decide, decide_eq_decide, twosComplement_singleton,
    twosComplement_singleton]
  split <;> split <;> omega

end

/-! ## Chains -/

/-- The results for the bytes of two numbers, each carry going into the next. -/
def chain (op : UInt8 → UInt8 → Bool → Result) : List UInt8 → List UInt8 → Bool → List Result
  | l :: lhs, r :: rhs, carry => op l r carry :: chain op lhs rhs (op l r carry).carry
  | _, _, _ => []

/-- What holds of single bytes and carries over to one byte more below holds of the results of a
chain and of its last result, which exists. -/
theorem chain_induction {op : UInt8 → UInt8 → Bool → Result}
    {P : List UInt8 → List UInt8 → Bool → List Result → Result → Prop}
    (single : ∀ l r carry, P [l] [r] carry [op l r carry] (op l r carry))
    (cons : ∀ l r carry lhs rhs results last, lhs.length = rhs.length → 0 < lhs.length →
      P lhs rhs (op l r carry).carry results last →
        P (l :: lhs) (r :: rhs) carry (op l r carry :: results) last)
    {lhs rhs : List UInt8} (hlen : lhs.length = rhs.length) (hpos : 0 < lhs.length) (carry : Bool) :
    ∃ last, (chain op lhs rhs carry).getLast? = some last ∧
      P lhs rhs carry (chain op lhs rhs carry) last := by
  induction lhs generalizing rhs carry with
  | nil => exact absurd hpos (Nat.lt_irrefl 0)
  | cons l lhs ih =>
    obtain ⟨r, rhs, rfl⟩ := List.exists_cons_of_length_pos (hlen ▸ hpos)
    have hrest : lhs.length = rhs.length := Nat.succ.inj hlen
    -- An empty chain has no last result, so the induction starts where one byte is left.
    cases hl : lhs with
    | nil =>
      rw [hl] at hrest
      obtain rfl := List.eq_nil_of_length_eq_zero hrest.symm
      exact ⟨op l r carry, rfl, single l r carry⟩
    | cons l' lhs' =>
      rw [← hl]
      have hmore : 0 < lhs.length := hl ▸ Nat.succ_pos _
      obtain ⟨last, hlast, hP⟩ := ih hrest hmore (op l r carry).carry
      refine ⟨last, ?_, cons l r carry lhs rhs _ last hrest hmore hP⟩
      rw [chain, List.getLast?_cons, hlast]
      rfl

/-- The bytes of the results make up, with the last carry above them, the sum of two numbers and a
carry; and the other flags of the last result are those of this sum. -/
structure IsSum (lhs rhs : List UInt8) (carry : Bool) (results : List Result) (last : Result) :
    Prop where
  length_eq : results.length = lhs.length
  sum_eq : littleEndian (results.map (·.value)) + 256 ^ lhs.length * last.carry.toNat =
    littleEndian lhs + littleEndian rhs + carry.toNat
  overflow_iff : last.overflow = true ↔
    Overflows (8 * lhs.length) (twosComplement lhs + twosComplement rhs + carry.toNat)
  auxiliaryCarry_iff : last.auxiliaryCarry = true ↔
    CarriesOut (8 * lhs.length - 4) (littleEndian lhs) (littleEndian rhs) carry

/-- The bytes of the results make up, less what the last carry says was borrowed, the difference of
two numbers and a borrow; and the other flags of the last result are those of this difference. -/
structure IsDifference (lhs rhs : List UInt8) (borrow : Bool) (results : List Result)
    (last : Result) : Prop where
  length_eq : results.length = lhs.length
  difference_eq : littleEndian lhs + 256 ^ lhs.length * last.carry.toNat =
    littleEndian (results.map (·.value)) + littleEndian rhs + borrow.toNat
  overflow_iff : last.overflow = true ↔
    Overflows (8 * lhs.length) (twosComplement lhs - twosComplement rhs - borrow.toNat)
  auxiliaryCarry_iff : last.auxiliaryCarry = true ↔
    BorrowsInto (8 * lhs.length - 4) (littleEndian lhs) (littleEndian rhs) borrow

theorem isSum_single (l r : UInt8) (carry : Bool) :
    IsSum [l] [r] carry [add l r carry] (add l r carry) where
  length_eq := rfl
  sum_eq := by
    rw [littleEndian_singleton, littleEndian_singleton]
    exact (congrArg (· + _) (littleEndian_singleton _)).trans (add_value l r carry)
  overflow_iff := add_overflow l r carry
  auxiliaryCarry_iff := by
    rw [littleEndian_singleton, littleEndian_singleton]
    exact add_auxiliaryCarry l r carry

theorem isDifference_single (l r : UInt8) (borrow : Bool) :
    IsDifference [l] [r] borrow [sub l r borrow] (sub l r borrow) where
  length_eq := rfl
  difference_eq := by
    rw [littleEndian_singleton, littleEndian_singleton]
    exact (sub_value l r borrow).trans
      (congrArg (· + _ + _) (littleEndian_singleton (sub l r borrow).value).symm)
  overflow_iff := sub_overflow l r borrow
  auxiliaryCarry_iff := by
    rw [littleEndian_singleton, littleEndian_singleton]
    exact sub_auxiliaryCarry l r borrow

section

variable (l r : UInt8) (carry : Bool) {lhs rhs : List UInt8} {results : List Result} {last : Result}
  (hlen : lhs.length = rhs.length) (hpos : 0 < lhs.length)

include hlen hpos

theorem IsSum.cons (h : IsSum lhs rhs (add l r carry).carry results last) :
    IsSum (l :: lhs) (r :: rhs) carry (add l r carry :: results) last := by
  have hadd := add_value l r carry
  have hv := (add l r carry).value.toNat_lt
  constructor
  · rw [List.length_cons, List.length_cons, h.length_eq]
  · have hsum := h.sum_eq
    rw [List.map_cons, littleEndian_cons, littleEndian_cons, littleEndian_cons, List.length_cons,
      pow_succ']
    grind
  · rw [h.overflow_iff, List.length_cons]
    refine (overflows_succ hpos hv ?_).symm
    rw [twosComplement_cons l hpos, twosComplement_cons r (hlen ▸ hpos)]
    omega
  · have hbits : 8 * (lhs.length + 1) - 4 = 8 * lhs.length - 4 + 8 := by omega
    rw [h.auxiliaryCarry_iff, List.length_cons, hbits, littleEndian_cons, littleEndian_cons]
    exact (carriesOut_succ l.toNat_lt r.toNat_lt hv hadd).symm

theorem IsDifference.cons (h : IsDifference lhs rhs (sub l r carry).carry results last) :
    IsDifference (l :: lhs) (r :: rhs) carry (sub l r carry :: results) last := by
  have hsub := sub_value l r carry
  have hv := (sub l r carry).value.toNat_lt
  constructor
  · rw [List.length_cons, List.length_cons, h.length_eq]
  · have hdiff := h.difference_eq
    rw [List.map_cons, littleEndian_cons, littleEndian_cons, littleEndian_cons, List.length_cons,
      pow_succ']
    grind
  · rw [h.overflow_iff, List.length_cons]
    refine (overflows_succ hpos hv ?_).symm
    rw [twosComplement_cons l hpos, twosComplement_cons r (hlen ▸ hpos)]
    omega
  · have hbits : 8 * (lhs.length + 1) - 4 = 8 * lhs.length - 4 + 8 := by omega
    rw [h.auxiliaryCarry_iff, List.length_cons, hbits, littleEndian_cons, littleEndian_cons]
    exact (borrowsInto_succ l.toNat_lt r.toNat_lt hv hsub).symm

theorem isSum_chain : ∃ last, (chain add lhs rhs carry).getLast? = some last ∧
    IsSum lhs rhs carry (chain add lhs rhs carry) last :=
  chain_induction isSum_single (fun l r carry _ _ _ _ => IsSum.cons l r carry) hlen hpos carry

theorem isDifference_chain : ∃ last, (chain sub lhs rhs carry).getLast? = some last ∧
    IsDifference lhs rhs carry (chain sub lhs rhs carry) last :=
  chain_induction isDifference_single (fun l r carry _ _ _ _ => IsDifference.cons l r carry) hlen
    hpos carry

end

/-! ## What a number of fixed length holds -/

theorem IsSum.value_eq {lhs rhs : List UInt8} {carry : Bool} {results : List Result} {last : Result}
    (h : IsSum lhs rhs carry results last) : littleEndian (results.map (·.value)) =
      (littleEndian lhs + littleEndian rhs + carry.toNat) % 256 ^ lhs.length := by
  have hlt := littleEndian_lt (results.map (·.value))
  rw [List.length_map, h.length_eq] at hlt
  rw [← h.sum_eq, Nat.add_mul_mod_self_left, Nat.mod_eq_of_lt hlt]

theorem IsSum.carry_iff {lhs rhs : List UInt8} {carry : Bool} {results : List Result} {last : Result}
    (h : IsSum lhs rhs carry results last) : last.carry = true ↔
      256 ^ lhs.length ≤ littleEndian lhs + littleEndian rhs + carry.toNat := by
  have hlt := littleEndian_lt (results.map (·.value))
  rw [List.length_map, h.length_eq] at hlt
  rw [← h.sum_eq]
  cases last.carry with
  | true =>
    rw [Bool.toNat_true, Nat.mul_one]
    exact iff_of_true rfl (Nat.le_add_left ..)
  | false =>
    rw [Bool.toNat_false, Nat.mul_zero, Nat.add_zero]
    exact iff_of_false Bool.false_ne_true (Nat.not_le_of_lt hlt)

theorem IsDifference.value_eq {lhs rhs : List UInt8} {borrow : Bool} {results : List Result}
    {last : Result} (h : IsDifference lhs rhs borrow results last) :
    (littleEndian (results.map (·.value)) : Int) =
      ((littleEndian lhs : Int) - littleEndian rhs - borrow.toNat) % 256 ^ lhs.length := by
  have hlt := littleEndian_lt (results.map (·.value))
  rw [List.length_map, h.length_eq] at hlt
  have hdiff : (littleEndian lhs : Int) - littleEndian rhs - borrow.toNat =
      littleEndian (results.map (·.value)) + 256 ^ lhs.length * -(last.carry.toNat : Int) := by
    have hnat : (littleEndian lhs : Int) + 256 ^ lhs.length * last.carry.toNat =
        littleEndian (results.map (·.value)) + littleEndian rhs + borrow.toNat := by
      exact_mod_cast h.difference_eq
    rw [Int.mul_neg]
    omega
  rw [hdiff, Int.add_mul_emod_self_left]
  exact (Int.emod_eq_of_lt (Int.natCast_nonneg _) (by exact_mod_cast hlt)).symm

theorem IsDifference.carry_iff {lhs rhs : List UInt8} {borrow : Bool} {results : List Result}
    {last : Result} (h : IsDifference lhs rhs borrow results last) : last.carry = true ↔
      littleEndian lhs < littleEndian rhs + borrow.toNat := by
  have hlt := littleEndian_lt (results.map (·.value))
  rw [List.length_map, h.length_eq] at hlt
  have hdiff := h.difference_eq
  cases hlast : last.carry with
  | true =>
    rw [hlast, Bool.toNat_true, Nat.mul_one] at hdiff
    exact iff_of_true rfl (by omega)
  | false =>
    rw [hlast, Bool.toNat_false, Nat.mul_zero, Nat.add_zero] at hdiff
    exact iff_of_false Bool.false_ne_true (by omega)

end Alu

end VisualMemory
