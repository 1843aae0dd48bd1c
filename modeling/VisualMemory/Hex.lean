/-!
# Hexadecimal text

Addresses and bytes are shown in upper-case hexadecimal, filled with zeros on the left.
-/

namespace VisualMemory.Hex

/-- The upper-case digit of a value below 16. -/
def digit (d : Nat) : Char :=
  if d < 10 then Char.ofNat (48 + d) else Char.ofNat (55 + d)

/-- The last `width` hexadecimal digits of `n`, most significant first. -/
def digits : (width n : Nat) → List Char
  | 0, _ => []
  | width + 1, n => digits width (n / 16) ++ [digit (n % 16)]

/-- How many hexadecimal digits `n` needs; none for zero. -/
def size (n : Nat) : Nat :=
  if n = 0 then 0 else size (n / 16) + 1
termination_by n
decreasing_by omega

/-- `n` in upper-case hexadecimal with at least `width` digits. -/
def text (width n : Nat) : String :=
  String.ofList (digits (max width (size n)) n)

def byte (b : UInt8) : String :=
  text 2 b.toNat

def word (w : UInt16) : String :=
  text 4 w.toNat

end VisualMemory.Hex
