import Readback.Content
import Readback.Geometry
import Readback.Stop

namespace Readback

/-- Everything there is to say about a run before it starts. -/
structure Config where
  device : Option String
  blockSize : UInt64
  maxBlocksPerOp : UInt64
  uniquePct : UInt8
  /-- What this and `uniquePct` leave over is written as duplicate content. -/
  trimPct : UInt8
  workers : UInt64
  mode : Mode
  /-- Chosen anew for each run if absent. -/
  seed : Option UInt64
  /-- The number of iterations after which to stop, over all workers. -/
  count : Option UInt64
  duration : Option Duration
  reportInterval : Duration
  /-- Stop once as many blocks were verified as the device has. -/
  stopAtFull : Bool
  stopOnFailure : Bool
  /-- How many mismatches each worker describes before it only counts them. -/
  maxDiagnostics : UInt64
  deriving DecidableEq, Repr

namespace Config

def standard : Config where
  device := none
  blockSize := 4096
  maxBlocksPerOp := 16
  uniquePct := 51
  trimPct := 0
  workers := 2
  mode := .hash
  seed := none
  count := none
  duration := none
  reportInterval := .ofSeconds 1
  stopAtFull := false
  stopOnFailure := false
  maxDiagnostics := 3

inductive Refusal
  | blockSize (r : Geometry.Refusal)
  | noBlocks
  | percentages (unique trim : UInt8)
  | noWorkers
  | noInterval
  | noIterations
  | noDuration
  deriving DecidableEq, Repr

def Refusal.error : Refusal → Error
  | blockSize r => r.error
  | noBlocks => ⟨.config, "max blocks per op must be at least 1"⟩
  | percentages u t =>
    ⟨.config, s!"unique ({u}%) and trim ({t}%) add up to more than 100%"⟩
  | noWorkers => ⟨.config, "need at least one worker"⟩
  | noInterval => ⟨.config, "report interval must not be zero"⟩
  | noIterations => ⟨.config, "count must be at least 1"⟩
  | noDuration => ⟨.config, "duration must not be zero"⟩

def validate (c : Config) : Except Refusal Unit := do
  (Geometry.checkBlockSize c.blockSize.toNat).mapError .blockSize
  if c.maxBlocksPerOp = 0 then throw .noBlocks
  if 100 < c.uniquePct.toNat + c.trimPct.toNat then throw (.percentages c.uniquePct c.trimPct)
  if c.workers = 0 then throw .noWorkers
  if c.reportInterval.isZero then throw .noInterval
  if c.count = some 0 then throw .noIterations
  if c.duration.any Duration.isZero then throw .noDuration

def isBounded (c : Config) : Bool :=
  c.count.isSome || c.duration.isSome || c.stopAtFull || c.stopOnFailure

/-- The stop conditions of a run that starts at `start`. -/
def policy (c : Config) (start : Instant) (nBlocks : Nat) : Except Fault Stop.Policy := do
  let deadline ← c.duration.mapM start.add
  return {
    maxIterations := c.count
    deadline
    untilVerified := if c.stopAtFull then some nBlocks.toUInt64 else none
    stopOnFailure := c.stopOnFailure }

end Config

end Readback
