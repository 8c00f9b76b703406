/-!
# The exact value of a float

A float is printed from its exact value, never from an approximation of it.
-/

namespace Funnel.Number

/-- What a float stands for. A finite one is `mantissa * 2 ^ exponent`, negated when `negative`. -/
inductive Binary64
  | nan
  | infinite (negative : Bool)
  | finite (negative : Bool) (mantissa : Nat) (exponent : Int)
deriving DecidableEq, Repr

/-- The leading one of a mantissa, above the bits of the fraction. -/
def Binary64.hiddenBit : Nat := Nat.pow 2 52

/-- The value of 64 bits: one sign bit, eleven for the exponent, and the fraction, which has a
leading one above it except at the least exponent. -/
def Binary64.ofBits (bits : Nat) : Binary64 :=
  let negative := bits / Nat.pow 2 63 % 2 == 1
  let exponent : Nat := bits / hiddenBit % 2048
  let fraction := bits % hiddenBit
  if exponent = 2047 then
    if fraction = 0 then .infinite negative else .nan
  else if exponent = 0 then .finite negative fraction (-1074)
  else .finite negative (hiddenBit + fraction) ((exponent : Int) - 1075)

def Binary64.ofFloat (x : Float) : Binary64 :=
  .ofBits x.toBits.toNat

/-- A nonnegative rational number; the denominator is positive wherever one is built here. -/
structure Fraction where
  num : Nat
  den : Nat
deriving DecidableEq, Repr

/-- `mantissa * 2 ^ exponent` as a fraction. -/
def Binary64.magnitude (mantissa : Nat) (exponent : Int) : Fraction :=
  ⟨mantissa * Nat.pow 2 exponent.toNat, Nat.pow 2 (-exponent).toNat⟩

/-- `x * 10 ^ exponent`. -/
def Fraction.scale10 (x : Fraction) (exponent : Int) : Fraction :=
  ⟨x.num * Nat.pow 10 exponent.toNat, x.den * Nat.pow 10 (-exponent).toNat⟩

/-- The integer nearest to a fraction; of two that are equally near, the even one. -/
def Fraction.roundHalfEven (x : Fraction) : Nat :=
  let q := x.num / x.den
  let twice := 2 * (x.num % x.den)
  if twice < x.den then q
  else if x.den < twice then q + 1
  else q + q % 2

end Funnel.Number
