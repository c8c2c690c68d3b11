import Readback.Config
import Readback.Stats.Line
import Readback.Stats.Rates

namespace Readback

/-- What a run that ended comes to. -/
structure Summary where
  config : Config
  seed : UInt64
  geometry : Geometry
  elapsedSeconds : Float
  stats : Stats
  stopReason : Option Stop.Reason
  rates : RateSamples

namespace Summary

def passed (s : Summary) : Bool :=
  s.stats.mismatches = 0

/-- The progress report at the end; a time that no duration can hold is a fault. -/
def line (s : Summary) : Except Fault String :=
  match Duration.ofFloat? s.elapsedSeconds with
  | some d => .ok (s.stats.line d s.geometry.nBlocks)
  | none => .error .overflow

end Summary

end Readback
