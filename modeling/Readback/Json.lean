import Readback.Decimal.Shortest

namespace Readback

/-- A number as it is written: a sign, whole digits, `places` digits after the point whose value is
`fraction`, and an exponent. -/
structure Numeral where
  negative : Bool
  whole : Nat
  places : Nat
  fraction : Nat
  exponent : Option Int
  deriving DecidableEq, Repr

/-- A document as it is written: fields keep their order and may be repeated, and a text that holds
half of a surrogate pair, which no reader can use but which may be skipped, is `none`. -/
inductive Json
  | null
  | bool (b : Bool)
  | number (n : Numeral)
  | string (s : Option String)
  | array (items : List Json)
  | object (fields : List (Option String × Json))

namespace Numeral

def ofNat (n : Nat) : Numeral :=
  ⟨false, n, 0, 0, none⟩

def isWhole (n : Numeral) : Bool :=
  n.places = 0 && n.exponent.isNone

def below? (limit : Nat) (n : Numeral) : Option Nat :=
  if n.isWhole ∧ ¬n.negative ∧ n.whole < limit then some n.whole else none

/-- Takes digits as long as the number they make fits in 64 bits; the rest are counted. -/
def significant : (soFar : Nat) → List Char → Nat × Nat
  | soFar, [] => (soFar, 0)
  | soFar, c :: rest =>
    let next := 10 * soFar + (c.toNat - 48)
    if next < 2 ^ 64 then significant next rest else (soFar, rest.length + 1)

def power (n : Nat) : Float :=
  Float.ofScientific 1 false n

/-- Scales by a power of ten in steps of at most 308 places. -/
def scale (x : Float) : (steps : Nat) → Int → Option Float
  | 0, _ => none
  | steps + 1, e =>
    if e.natAbs ≤ 308 then
      if 0 ≤ e then
        let y := x * power e.toNat
        if y.isInf then none else some y
      else some (x / power e.natAbs)
    else if x == 0 then some x
    else if 0 ≤ e then none
    else scale (x / power 308) steps (e + 308)

/-- The nearest floating-point number, computed from the digits that fit in 64 bits by one
multiplication or division; a number out of range has none. -/
def toFloat? (n : Numeral) : Option Float :=
  let sign := fun (x : Float) => if n.negative then -x else x
  if n.isWhole ∧ n.whole < 2 ^ 64 then some (sign n.whole.toUInt64.toFloat)
  else
    let (whole, dropped) := significant 0 (Nat.toDigits 10 n.whole)
    let fractionDigits :=
      let ds := Nat.toDigits 10 n.fraction
      List.replicate (n.places - ds.length) '0' ++ ds
    let (digits, used) :=
      if n.places = 0 then (whole, 0)
      else
        let (digits, unused) := significant whole fractionDigits
        (digits, n.places - unused)
    let e : Int := dropped - used + n.exponent.getD 0
    let steps := (e.natAbs / 308) + 2
    (scale digits.toUInt64.toFloat (min steps 40) (max e (-12000))).map sign

/-- The digits `d` times a power of ten, with a point or with an exponent. -/
def ofDecimal (style : Decimal.Style) (negative : Bool) (d : Nat) (e : Int) : Numeral :=
  let count : Int := (Nat.toDigits 10 d).length
  let point := count + e
  if 0 ≤ e ∧ point ≤ style.maxWhole then ⟨negative, d * 10 ^ e.toNat, 1, 0, none⟩
  else if e < 0 ∧ -style.maxZeroes < point ∧ point ≤ style.maxWhole then
    let places := (-e).toNat
    ⟨negative, d / 10 ^ places, places, d % 10 ^ places, none⟩
  else
    let places := (count - 1).toNat
    ⟨negative, d / 10 ^ places, places, d % 10 ^ places, some (point - 1)⟩

/-- The shortest numeral that reads back as the number, if it is finite. -/
def ofBinary? (style : Decimal.Style) : Binary → Option Numeral
  | .finite negative 0 _ => some ⟨negative, 0, 1, 0, none⟩
  | .finite negative m e =>
    let (d, e) := Decimal.shortest style.fractionBits style.lowest m e
    some (ofDecimal style negative d e)
  | _ => none

end Numeral

namespace Json

def nat (n : Nat) : Json :=
  .number (.ofNat n)

def text (s : String) : Json :=
  .string (some s)

def record (fields : List (String × Json)) : Json :=
  .object (fields.map fun (k, v) => (some k, v))

/-- A number, or `null` for what no numeral stands for. -/
def ofFloat (x : Float) : Json :=
  (Numeral.ofBinary? .double (.ofFloat x)).elim .null .number

def ofFloat32 (x : Float32) : Json :=
  (Numeral.ofBinary? .single (.ofFloat32 x)).elim .null .number

end Json

end Readback
