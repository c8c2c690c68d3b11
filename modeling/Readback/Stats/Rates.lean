import Readback.Decimal.Fixed
import Readback.Error

namespace Readback

/-- Iterations and bytes written per second, an entry of each for every interval reported. -/
structure RateSamples where
  iops : List Float32
  bandwidth : List Float32

def RateSamples.empty : RateSamples := ⟨[], []⟩

structure RateSummary where
  samples : Nat
  mean : Float32
  /-- Absent with fewer than two samples. -/
  deviation : Option Float32
  least : Float32
  greatest : Float32

namespace RateSummary

def sum (xs : List Float32) : Float32 :=
  xs.foldl (· + ·) 0

def average (xs : List Float32) : Float32 :=
  sum xs / xs.length.toUInt64.toFloat32

/-- The sample standard deviation; a sum of squares that is not a number is a fault. -/
def spread (xs : List Float32) (mean : Float32) : Except Fault Float32 :=
  let squares := sum (xs.map fun x => (x - mean) * (x - mean))
  if 0 ≤ squares then .ok (squares / (xs.length - 1).toUInt64.toFloat32).sqrt
  else .error .assertion

def sorted (xs : List Float32) : List Float32 :=
  xs.mergeSort fun x y => !(decide (y < x))

def of (xs : List Float32) : Except Fault (Option RateSummary) :=
  match xs with
  | [] => .ok none
  | x :: _ => do
    let mean := average xs
    let deviation ← if xs.length < 2 then pure none else some <$> spread xs mean
    let ordered := sorted xs
    return some ⟨xs.length, mean, deviation, ordered.head?.getD x, ordered.getLast?.getD x⟩

def two (x : Float32) : String :=
  Decimal.twoPlaces (.ofFloat32 x)

def text (s : RateSummary) : String :=
  let deviation := match s.deviation with
    | some d => s!" stddev {two d}"
    | none => ""
  s!"mean {two s.mean}{deviation} min {two s.least} max {two s.greatest}"

end RateSummary

end Readback
