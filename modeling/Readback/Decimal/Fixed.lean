import Readback.Decimal.Binary

namespace Readback.Decimal

/-- The whole number nearest to `num / den`; halfway between two, the even one. -/
def roundDiv (num den : Nat) : Nat :=
  let q := num / den
  let r := num % den
  if 2 * r < den then q
  else if den < 2 * r then q + 1
  else if q % 2 = 0 then q else q + 1

/-- `value` in units of the `places`-th digit after the point. -/
def pointed (places value : Nat) : String :=
  let fraction := Nat.toDigits 10 (value % 10 ^ places)
  let padding := List.replicate (places - fraction.length) '0'
  String.ofList (Nat.toDigits 10 (value / 10 ^ places) ++ '.' :: padding ++ fraction)

/-- A number with two digits after the point, rounded from its exact value. -/
def twoPlaces : Binary → String
  | .nan => "NaN"
  | .infinite negative => if negative then "-inf" else "inf"
  | .finite negative m e =>
    let hundredths := roundDiv (m * 100 * 2 ^ e.toNat) (2 ^ (-e).toNat)
    (if negative then "-" else "") ++ pointed 2 hundredths

end Readback.Decimal
