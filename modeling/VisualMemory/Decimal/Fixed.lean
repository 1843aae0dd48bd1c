/-!
# Fixed decimals

A binary floating-point number written with one decimal place. The exact value is rounded to the
nearest tenth, and a value half-way between two tenths goes to the even one.

* `Decimal.roundDiv`: the nearest whole number to a quotient.
* `Decimal.Binary`: the exact value of a finite number, `± mantissa * 2 ^ exponent`.
* `Decimal.tenths`: the text.
-/

namespace VisualMemory.Decimal

/-- The whole number nearest to `num / den`; of two the even one. -/
def roundDiv (num den : Nat) : Nat :=
  let q := num / den
  let r := num % den
  if 2 * r < den then q
  else if den < 2 * r then q + 1
  else if q % 2 = 0 then q
  else q + 1

/-- The exact value of a finite number. -/
structure Binary where
  negative : Bool
  mantissa : Nat
  exponent : Int
  deriving DecidableEq, Repr

/-- The exact value of a floating-point number, unless it is infinite or no number. -/
def Binary.ofFloat? (x : Float) : Option Binary :=
  let bits : Nat := x.toBits.toNat
  let negative : Bool := bits >>> 63 == 1
  let biased : Nat := (bits >>> 52) % 0x800
  let fraction : Nat := bits % 0x10000000000000
  if biased = 0x7FF then none
  else if biased = 0 then some { negative, mantissa := fraction, exponent := -1074 }
  else some { negative, mantissa := 0x10000000000000 + fraction, exponent := (biased : Int) - 1075 }

/-- The size of the value in tenths, rounded. -/
def Binary.tenths (b : Binary) : Nat :=
  if 0 ≤ b.exponent then (b.mantissa * 10) <<< b.exponent.toNat
  else roundDiv (b.mantissa * 10) (1 <<< (-b.exponent).toNat)

/-- A number with one decimal place. -/
def tenths (x : Float) : String :=
  match Binary.ofFloat? x with
  | some b =>
    let sign := if b.negative then "-" else ""
    s!"{sign}{b.tenths / 10}.{b.tenths % 10}"
  | none => if x.isNaN then "NaN" else if x < 0 then "-inf" else "inf"

end VisualMemory.Decimal
