import Readback.Decimal.Binary

namespace Readback.Decimal

/-- The whole numbers that round to a positive binary number, on a scale of `unit` per one: those
between `low` and `high`, with both ends if `closed`. -/
structure Reading where
  low : Nat
  value : Nat
  high : Nat
  unit : Nat
  closed : Bool

/-- The readings of `m * 2 ^ e` among numbers with `fractionBits` bits after the point, of which
`lowest` is the least exponent. -/
def Reading.of (fractionBits : Nat) (lowest : Int) (m : Nat) (e : Int) : Reading :=
  let narrow := m = 2 ^ fractionBits ∧ lowest < e
  let scale := 2 ^ e.toNat
  { low := (4 * m - if narrow then 1 else 2) * scale
    value := 4 * m * scale
    high := (4 * m + 2) * scale
    unit := 4 * 2 ^ (-e).toNat
    closed := m % 2 = 0 }

def Reading.contains (r : Reading) (x : Nat) : Bool :=
  if r.closed then r.low ≤ x && x ≤ r.high else r.low < x && x < r.high

/-- The readings on a scale that is finer by `factor`. -/
def Reading.refine (r : Reading) (factor : Nat) : Reading :=
  { r with low := r.low * factor, value := r.value * factor, high := r.high * factor }

/-- The nearest to the value of the multiples of `step` that are readings, divided by `step`;
halfway between two, the even one. -/
def Reading.onGrid? (r : Reading) (step : Nat) : Option Nat :=
  let below := r.value / step
  let fits := fun q => r.contains (q * step)
  if fits below ∧ fits (below + 1) then
    let rest := 2 * (r.value - below * step)
    some (if rest < step ∨ rest = step ∧ below % 2 = 0 then below else below + 1)
  else if fits below then some below
  else if fits (below + 1) then some (below + 1)
  else none

/-- Looks for a reading with few digits: `digits * 10 ^ exponent`, trying the exponents from `top`
down. -/
def Reading.search (r : Reading) : (tries : Nat) → (top : Int) → Option (Nat × Int)
  | 0, _ => none
  | tries + 1, top =>
    let found :=
      if 0 ≤ top then r.onGrid? (r.unit * 10 ^ top.toNat)
      else (r.refine (10 ^ (-top).toNat)).onGrid? r.unit
    match found with
    | some q => if q = 0 then r.search tries (top - 1) else some (q, top)
    | none => r.search tries (top - 1)

/-- `digits * 10 ^ exponent` without the zeroes at the end of the digits. -/
def trimZeroes : (tries : Nat) → Nat → Int → Nat × Int
  | 0, digits, exponent => (digits, exponent)
  | tries + 1, digits, exponent =>
    if digits % 10 = 0 ∧ digits ≠ 0 then trimZeroes tries (digits / 10) (exponent + 1)
    else (digits, exponent)

/-- The fewest digits that read back as `m * 2 ^ e`, and of those the nearest. -/
def shortest (fractionBits : Nat) (lowest : Int) (m : Nat) (e : Int) : Nat × Int :=
  let r := Reading.of fractionBits lowest m e
  let size : Int := (m.log2 : Int) + e
  let top := size * 30103 / 100000 + 2
  match r.search 24 top with
  | some (digits, exponent) => trimZeroes 24 digits exponent
  | none => (0, 0)

/-- Where a number is written with a point instead of an exponent. -/
structure Style where
  fractionBits : Nat
  lowest : Int
  /-- The greatest number of digits before the point. -/
  maxWhole : Int
  /-- Numbers whose first digit stands this many places after the point, or more, get an
  exponent. -/
  maxZeroes : Int

def Style.double : Style := ⟨52, -1074, 16, 5⟩

def Style.single : Style := ⟨23, -149, 13, 6⟩

end Readback.Decimal
