/-!
# Bits of a byte and bytes of a word

Registers are single bytes and program addresses are two of them. This file names the operations
on both that the machine needs; bit 0 is the least significant.

* `UInt8.bit`, `UInt8.setBit`, `UInt8.flipBit`: one bit, by its index.
* `UInt16.ofBytes`, `UInt16.highByte`, `UInt16.lowByte`: a word and its two halves.
* `UInt16.offset`: a word moved by a signed byte.
-/

namespace UInt8

/-! ## Bits -/

/-- The bit at index `i`. -/
@[inline] def bit (b i : UInt8) : Bool :=
  (b >>> i) &&& 1 == 1

/-- The byte with the bit at index `i` made `on`. -/
@[inline] def setBit (b i : UInt8) (on : Bool) : UInt8 :=
  if on then b ||| (1 <<< i) else b &&& ~~~(1 <<< i)

/-- The byte with the bit at index `i` inverted. -/
@[inline] def flipBit (b i : UInt8) : UInt8 :=
  b ^^^ (1 <<< i)

/-- The byte 1 for `true` and 0 for `false`. -/
@[inline] def ofBool (b : Bool) : UInt8 :=
  if b then 1 else 0

/-- The byte moved one place to the left, its top bit coming back at the bottom. -/
@[inline] def rollLeft (b : UInt8) : UInt8 :=
  (b <<< 1) ||| (b >>> 7)

/-- The byte moved one place to the right, its bottom bit coming back at the top. -/
@[inline] def rollRight (b : UInt8) : UInt8 :=
  (b >>> 1) ||| (b <<< 7)

end UInt8

namespace UInt16

/-! ## Words -/

/-- The word with the given high and low bytes. -/
@[inline] def ofBytes (high low : UInt8) : UInt16 :=
  (high.toUInt16 <<< 8) ||| low.toUInt16

@[inline] def highByte (w : UInt16) : UInt8 :=
  (w >>> 8).toUInt8

@[inline] def lowByte (w : UInt16) : UInt8 :=
  w.toUInt8

/-- The word moved by a byte read as a signed number, modulo 2 ^ 16. -/
@[inline] def offset (w : UInt16) (displacement : UInt8) : UInt16 :=
  if displacement.bit 7 then w + displacement.toUInt16 + 0xFF00 else w + displacement.toUInt16

end UInt16
