import Funnel.Number.Binary64

namespace Funnel.Number

/-- `n` units of the last of `places` decimal places: at least one digit before the point, and no
point without places. -/
def fixedPlaces (places n : Nat) : String :=
  let digits := (Nat.toDigits 10 n).leftpad (places + 1) '0'
  let whole := String.ofList (digits.take (digits.length - places))
  if places = 0 then whole
  else whole ++ "." ++ String.ofList (digits.drop (digits.length - places))

/-- A float with a fixed number of places. The sign is kept even where all digits are zero. -/
def fixed (places : Nat) (x : Float) : String :=
  match Binary64.ofFloat x with
  | .nan => "NaN"
  | .infinite negative => if negative then "-inf" else "inf"
  | .finite negative mantissa exponent =>
    let units := ((Binary64.magnitude mantissa exponent).scale10 places).roundHalfEven
    (if negative then "-" else "") ++ fixedPlaces places units

end Funnel.Number
