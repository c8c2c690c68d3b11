import Readback.Decimal.Fixed
import Readback.Word

namespace Readback

/-- A length of time, in nanoseconds. -/
structure Duration where
  nanos : Nat
  deriving DecidableEq, Repr

namespace Duration

def second : Nat := 1000000000

def ofSeconds (n : Nat) : Duration := ⟨n * second⟩

def seconds (d : Duration) : Nat := d.nanos / second

/-- The nanoseconds beyond the whole seconds. -/
def subsecond (d : Duration) : Nat := d.nanos % second

def fits (d : Duration) : Bool := d.seconds < Word.limit

/-- Seconds and nanoseconds together, of which there may be more than fill a second. -/
def ofParts (seconds nanos : Nat) : Except Fault Duration :=
  let d : Duration := ⟨seconds * second + nanos⟩
  if d.fits then .ok d else .error .overflow

def isZero (d : Duration) : Bool := d.nanos = 0

def toFloat (d : Duration) : Float :=
  d.seconds.toUInt64.toFloat + d.subsecond.toUInt64.toFloat / 1000000000.0

/-- The duration of a number of seconds, to the nearest nanosecond. -/
def ofFloat? (x : Float) : Option Duration :=
  match Binary.ofFloat x with
  | .finite negative m e =>
    if negative ∧ m ≠ 0 then none
    else
      let d : Duration := ⟨Decimal.roundDiv (m * second * 2 ^ e.toNat) (2 ^ (-e).toNat)⟩
      if d.fits then some d else none
  | _ => none

end Duration

/-- A reading of a clock that never goes back, in nanoseconds. -/
structure Instant where
  nanos : Int
  deriving DecidableEq, Repr

namespace Instant

/-- How many seconds a clock can show before and after zero. -/
def range : Int := 2 ^ 63

/-- Whether a clock can show the whole seconds. -/
def shown (t : Instant) : Bool :=
  let seconds := t.nanos / Duration.second
  seconds < range && -range ≤ seconds

def add (t : Instant) (d : Duration) : Except Fault Instant :=
  let later : Instant := ⟨t.nanos + d.nanos⟩
  if later.shown then .ok later else .error .overflow

def sub (t : Instant) (d : Duration) : Except Fault Instant :=
  let earlier : Instant := ⟨t.nanos - d.nanos⟩
  if earlier.shown then .ok earlier else .error .overflow

/-- The time from `earlier` to `t`, none if it is not earlier. -/
def since (t earlier : Instant) : Duration :=
  ⟨(t.nanos - earlier.nanos).toNat⟩

end Instant

end Readback
