import Readback.Stats.Line
import Readback.Stats.Rates

namespace Readback

/-- Reports progress at most once an interval, and samples the rates in between. -/
structure Reporter where
  interval : Duration
  nBlocks : Nat
  start : Instant
  last : Instant
  lastStats : Stats
  samples : RateSamples

namespace Reporter

def make (interval : Duration) (nBlocks : Nat) (start : Instant) : Reporter :=
  ⟨interval, nBlocks, start, start, .zero, .empty⟩

def due (r : Reporter) (now : Instant) : Bool :=
  r.interval.nanos ≤ (now.since r.last).nanos

/-- How much a counter has grown, nothing if it has shrunk. -/
def growth (now last : UInt64) : UInt64 :=
  if last ≤ now then now - last else 0

/-- Samples the rates since the last report, and makes the line. -/
def report (r : Reporter) (s : Stats) (now : Instant) : String × Reporter :=
  let t := (now.since r.last).divisor.toFloat32
  let iops := (growth s.iterations r.lastStats.iterations).toFloat32 / t
  let bandwidth := (growth s.bytesWritten r.lastStats.bytesWritten).toFloat32 / t
  (s.line (now.since r.start) r.nBlocks,
    { r with
      last := now
      lastStats := s
      samples := ⟨r.samples.iops ++ [iops], r.samples.bandwidth ++ [bandwidth]⟩ })

def reportAt (r : Reporter) (s : Stats) (now : Instant) : Option String × Reporter :=
  if r.due now then
    let (line, r) := r.report s now
    (some line, r)
  else (none, r)

end Reporter

end Readback
