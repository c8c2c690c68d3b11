import Readback.Decimal.Fixed
import Readback.Stats
import Readback.Time

namespace Readback

/-- Seconds to divide by, which are never quite zero. -/
def Duration.divisor (d : Duration) : Float :=
  let epsilon := Float.ofBits 0x3cb0000000000000
  let x := d.toFloat
  if epsilon < x then x else epsilon

def twoPlaces (x : Float) : String :=
  Decimal.twoPlaces (.ofFloat x)

/-- The progress report on one line.  Blocks verified are set against the size of the device and
pass 100 percent once some are verified again; covered blocks are counted once. -/
def Stats.line (s : Stats) (elapsed : Duration) (nBlocks : Nat) : String :=
  let t := elapsed.divisor
  let average :=
    if s.iterations = 0 then 0.0 else s.blocksTouched.toFloat / s.iterations.toFloat
  let percent := fun (v : UInt64) => v.toFloat * 100.0 / nBlocks.toUInt64.toFloat
  let rate := (s.iterations.toFloat / t).toUInt64
  let megabytes := s.bytesWritten.toFloat / t / 1024.0 / 1024.0
  s!"total: {s.iterations}, n/s: {rate}, avg blocks per it.: {twoPlaces average}, "
    ++ s!"percent done: {twoPlaces (percent s.verified)}, "
    ++ s!"covered: {twoPlaces (percent s.covered)}%, "
    ++ s!"verify cnt: {s.verified}/{s.verifiedDuplicate}/{s.verifiedTrimmed}, "
    ++ s!"errors: {s.readErrors}/{s.writeErrors}, mismatches: {s.mismatches}, "
    ++ s!"failures: {s.failedIterations}, MB/s: {twoPlaces megabytes}"

end Readback
