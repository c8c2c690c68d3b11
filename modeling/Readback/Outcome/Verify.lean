import Readback.Device
import Readback.Outcome

namespace Readback.Outcome

variable {σ : Type}

/-- Reads a lease back and compares it with what was last written to its blocks.  The device is told
first to forget what it may have cached, whether or not it can; it is not asked at all about a lease
of which no block was ever written. -/
def verify (dev : Device σ) (c : Content) (g : Geometry) (l : Lease) (d : σ) :
    Except Failure Outcome × σ :=
  if l.anyWritten then
    match g.rangeBytes l.range with
    | .error f => (.error (.fault f), d)
    | .ok (offset, n) =>
      match dev.answer (.invalidate offset n) d with
      | (.error (.fault f), d) => (.error (.fault f), d)
      | (_, d) =>
        match dev.answer (.read offset n) d with
        | (.error (.fault f), d) => (.error (.fault f), d)
        | (.error (.error e), d) => (.ok (unread l e), d)
        | (.ok bytes, d) => ((ofBytes c g l bytes.1).mapError .fault, d)
  else ((l.range.length.map untouched).mapError .fault, d)

end Readback.Outcome
