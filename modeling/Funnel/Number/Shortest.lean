import Funnel.Number.Binary64

/-!
# The shortest decimal of a float

A float is written with the fewest digits that read back as it, and of the decimals with these the
one nearest to its value.
-/

namespace Funnel.Number

/-- The reals that round to a finite float: from `low / den` to `high / den` around `mid / den`,
with both ends when `closed`. -/
structure Interval where
  low : Nat
  mid : Nat
  high : Nat
  den : Nat
  closed : Bool
deriving DecidableEq, Repr

/-- The interval of `mantissa * 2 ^ exponent`: half a unit to either side, but only a quarter below
where the next float down is nearer. The ends round to the float when its mantissa is even. -/
def Interval.ofMantissa (mantissa : Nat) (exponent : Int) : Interval :=
  let below := if mantissa = Binary64.hiddenBit ∧ -1074 < exponent then 1 else 2
  let up := Nat.pow 2 (exponent - 2).toNat
  { low := (4 * mantissa - below) * up
    mid := 4 * mantissa * up
    high := (4 * mantissa + 2) * up
    den := Nat.pow 2 (2 - exponent).toNat
    closed := mantissa % 2 == 0 }

/-- The decimal `digits * 10 ^ exponent`. -/
structure Decimal where
  digits : Nat
  exponent : Int
deriving DecidableEq, Repr

namespace Interval

def value (i : Interval) : Fraction := ⟨i.mid, i.den⟩

def holds (i : Interval) (d : Decimal) : Bool :=
  let x := Fraction.scale10 ⟨d.digits, 1⟩ d.exponent
  let at_ := x.num * i.den
  let low := i.low * x.den
  let high := i.high * x.den
  if i.closed then low ≤ at_ && at_ ≤ high else low < at_ && at_ < high

def leading (i : Interval) : Int :=
  let guess : Int := (Nat.toDigits 10 i.mid).length - (Nat.toDigits 10 i.den).length
  let x := i.value.scale10 (-guess)
  if x.den ≤ x.num then guess else guess - 1

/-- The decimal of `count` digits that rounds to the float, the nearest one if there are two. -/
def withDigits? (i : Interval) (count : Nat) : Option Decimal :=
  let exponent := i.leading + 1 - count
  let x := i.value.scale10 (-exponent)
  let q := x.num / x.den
  let down : Decimal := ⟨q, exponent⟩
  let up : Decimal := ⟨q + 1, exponent⟩
  match i.holds down, i.holds up with
  | true, true => some ⟨x.roundHalfEven, exponent⟩
  | true, false => some down
  | false, true => some up
  | false, false => none

end Interval

/-- A decimal without the zeros its digits end with. -/
def Decimal.strip (d : Decimal) : Decimal :=
  let zeros := ((Nat.toDigits 10 d.digits).reverse.takeWhile (· == '0')).length
  ⟨d.digits / Nat.pow 10 zeros, d.exponent + zeros⟩

/-- The decimal with the fewest digits that rounds to `mantissa * 2 ^ exponent`; seventeen always
suffice. -/
def Decimal.shortest (mantissa : Nat) (exponent : Int) : Decimal :=
  let i := Interval.ofMantissa mantissa exponent
  (((List.range 17).findSome? fun n => i.withDigits? (n + 1)).getD ⟨0, 0⟩).strip

/-- An exponent after its mark: always with a sign. -/
def exponentText (n : Int) : String :=
  "e" ++ (if n < 0 then "-" else "+") ++ toString n.natAbs

/-- A nonzero decimal as text. Its point stands after the first `digits + exponent` digits; within
the first sixteen places, or after at most five zeros, it is written there, otherwise after the
first digit and with an exponent. Whole numbers keep one zero after the point. -/
def Decimal.text (d : Decimal) : String :=
  let digits := Nat.toDigits 10 d.digits
  let point : Int := digits.length + d.exponent
  if 0 ≤ d.exponent ∧ point ≤ 16 then
    String.ofList (digits ++ List.replicate d.exponent.toNat '0') ++ ".0"
  else if 0 < point ∧ point ≤ 16 then
    String.ofList (digits.take point.toNat) ++ "." ++ String.ofList (digits.drop point.toNat)
  else if -5 < point ∧ point ≤ 0 then
    "0." ++ String.ofList (List.replicate (-point).toNat '0' ++ digits)
  else
    match digits with
    | [] => ""
    | [d] => d.toString ++ exponentText (point - 1)
    | d :: rest => d.toString ++ "." ++ String.ofList rest ++ exponentText (point - 1)

/-- The shortest text of a float that reads back as it; zero keeps its sign. -/
def shortest (x : Float) : String :=
  match Binary64.ofFloat x with
  | .nan => "NaN"
  | .infinite negative => if negative then "-inf" else "inf"
  | .finite negative mantissa exponent =>
    (if negative then "-" else "") ++
      if mantissa = 0 then "0.0" else (Decimal.shortest mantissa exponent).text

end Funnel.Number
