import VisualMemory.Byte

/-!
# Laws of bits

* `UInt8.bit_eq_getLsbD`: the bits of a byte are those of its bit vector.
* `UInt8.bit_setBit`: writing one bit.
* `UInt16.ofBytes_highByte_lowByte`: a word is put together from its halves.
* `UInt16.toNat_ofBytes`, `UInt16.toNat_highByte`, `UInt16.toNat_lowByte`: these as numbers.
-/

namespace UInt8

theorem toNat_lt_eight {i : UInt8} (hi : i < 8) : i.toNat < 8 := hi

theorem toBitVec_mod_eight {i : UInt8} (hi : i < 8) : i.toBitVec % 8 = i.toBitVec := by
  apply BitVec.eq_of_toNat_eq
  rw [BitVec.toNat_umod]
  exact Nat.mod_eq_of_lt (toNat_lt_eight hi)

theorem bit_eq_getLsbD (b : UInt8) {i : UInt8} (hi : i < 8) :
    b.bit i = b.toBitVec.getLsbD i.toNat := by
  have hone : (1 : UInt8).toBitVec = BitVec.twoPow 8 0 := rfl
  rw [bit, Bool.eq_iff_iff, beq_iff_eq, ← UInt8.toBitVec_inj, UInt8.toBitVec_and, hone,
    BitVec.and_twoPow, UInt8.toBitVec_shiftRight, toBitVec_mod_eight hi, BitVec.ushiftRight_eq',
    BitVec.getLsbD_ushiftRight, Nat.add_zero, UInt8.toNat_toBitVec]
  split
  · rename_i h
    exact ⟨fun _ => h, fun _ => rfl⟩
  · rename_i h
    exact ⟨fun h' => absurd h' (by decide), fun h' => absurd h' h⟩

theorem toBitVec_one_shiftLeft {i : UInt8} (hi : i < 8) :
    ((1 : UInt8) <<< i).toBitVec = BitVec.twoPow 8 i.toNat := by
  rw [UInt8.toBitVec_shiftLeft, toBitVec_mod_eight hi]
  rfl

theorem bit_setBit (b : UInt8) {i j : UInt8} (on : Bool) (hi : i < 8) (hj : j < 8) :
    (b.setBit i on).bit j = if i = j then on else b.bit j := by
  have hij : i.toNat = j.toNat ↔ i = j := UInt8.toNat_inj
  rw [bit_eq_getLsbD _ hj, bit_eq_getLsbD _ hj]
  cases on with
  | true =>
    rw [setBit, if_pos rfl, UInt8.toBitVec_or, toBitVec_one_shiftLeft hi, BitVec.getLsbD_or,
      BitVec.getLsbD_twoPow]
    by_cases h : i = j
    · simp [h, toNat_lt_eight hj]
    · simp [h, hij]
  | false =>
    rw [setBit, if_neg (by decide), UInt8.toBitVec_and, UInt8.toBitVec_not,
      toBitVec_one_shiftLeft hi, BitVec.getLsbD_and, BitVec.getLsbD_not, BitVec.getLsbD_twoPow]
    by_cases h : i = j
    · simp [h, toNat_lt_eight hj]
    · simp [h, hij, toNat_lt_eight hj]

end UInt8

theorem UInt16.ofBytes_highByte_lowByte (w : UInt16) : ofBytes w.highByte w.lowByte = w := by
  have height : ((8 : UInt16).toBitVec % 16).toNat = 8 := rfl
  apply UInt16.toBitVec_inj.mp
  apply BitVec.eq_of_getLsbD_eq
  intro i hi
  simp only [ofBytes, highByte, lowByte, UInt16.toBitVec_or, UInt16.toBitVec_shiftLeft,
    UInt16.toBitVec_shiftRight, UInt8.toBitVec_toUInt16, UInt16.toBitVec_toUInt8,
    BitVec.shiftLeft_eq', BitVec.ushiftRight_eq', BitVec.getLsbD_or, BitVec.getLsbD_shiftLeft,
    BitVec.getLsbD_ushiftRight, BitVec.getLsbD_setWidth, height]
  by_cases h : i < 8
  · simp [h, hi]
  · have hback : 8 + (i - 8) = i := by omega
    have hhigh : i - 8 < 8 := by omega
    have hwide : i - 8 < 16 := by omega
    simp [h, hi, hback, hhigh, hwide]

namespace UInt16

theorem toNat_ofBytes (high low : UInt8) :
    (ofBytes high low).toNat = 256 * high.toNat + low.toNat := by
  have hhigh := high.toNat_lt
  have hshift : (high.toUInt16 <<< 8).toNat = high.toNat <<< 8 := by
    rw [UInt16.toNat_shiftLeft, UInt8.toNat_toUInt16]
    show high.toNat <<< 8 % 65536 = _
    rw [Nat.shiftLeft_eq]
    omega
  rw [ofBytes, UInt16.toNat_or, hshift, UInt8.toNat_toUInt16,
    ← Nat.shiftLeft_add_eq_or_of_lt low.toNat_lt, Nat.shiftLeft_eq]
  omega

theorem toNat_highByte (w : UInt16) : w.highByte.toNat = w.toNat / 256 := by
  have hw := w.toNat_lt
  rw [highByte, UInt16.toNat_toUInt8, UInt16.toNat_shiftRight]
  show w.toNat >>> 8 % 256 = _
  rw [Nat.shiftRight_eq_div_pow]
  omega

theorem toNat_lowByte (w : UInt16) : w.lowByte.toNat = w.toNat % 256 :=
  w.toNat_toUInt8

end UInt16
