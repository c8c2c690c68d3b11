import Readback.Summary
import Readback.Worker

namespace Readback

/-- A run under way: its workers, what they share, the device, and what was said so far. -/
structure Run (σ : Type) where
  seed : UInt64
  job : Job
  shared : Shared
  device : σ
  workers : Array Worker
  /-- The latest entry first. -/
  log : List LogEntry
  /-- The latest line first. -/
  printed : List String

namespace Run

variable {σ : Type}

/-- How many workers a machine can keep track of, at 24 bytes each. -/
def maxWorkers : Nat := (Bytes.limit - 1) / 24

/-- What is known when a run starts and not in its configuration. -/
structure Setting where
  /-- Whether the stop flag is up already. -/
  stopped : Bool
  /-- The seed of a run that is given none. -/
  freshSeed : UInt64
  start : Instant
  /-- Random words for each worker of a run that is given no seed. -/
  entropy : Nat → Source

def deviceGeometry (dev : Device σ) (d : σ) (c : Config) : Except Error Geometry := do
  match dev.size d with
  | .error e => throw ⟨.setup, s!"cannot size device: {e.message}"⟩
  | .ok size => (Geometry.make size c.blockSize.toNat).mapError Geometry.Refusal.error

def openingEvents (c : Config) (seed : UInt64) (g : Geometry) : List Event :=
  [.settled seed c g.nBlocks] ++ if c.isBounded then [] else [.unbounded]

def deviceEvents (g : Geometry) : List Event :=
  [.sized g] ++ if g.remainder = 0 then [] else [.untested g.remainder]

def sharedFor (c : Config) (g : Geometry) (stopped : Bool) : Except Fault Shared := do
  let lock ← RangeLock.make g.nBlocks c.maxBlocksPerOp.toNat
  return ⟨lock, .zero, .make stopped, false⟩

def jobFor (c : Config) (g : Geometry) (content : Content) (start : Instant) :
    Except Fault Job := do
  return ⟨c, g, content, ← c.policy start g.nBlocks, start⟩

def makeWorkers (c : Config) (j : Job) (entropy : Nat → Source) : Except Fault (Array Worker) := do
  if maxWorkers < c.workers.toNat then throw .overflow
  let ids := List.range c.workers.toNat
  return (← ids.mapM fun id => Worker.make j id (entropy id)).toArray

/-- What is said, and the run that starts or the reason why none does.  All that can go wrong does
so before a worker exists. -/
def start (dev : Device σ) (d : σ) (c : Config) (setting : Setting) :
    List Event × Except Failure (Run σ) :=
  match c.validate with
  | .error r => ([], .error (.error r.error))
  | .ok () =>
    match deviceGeometry dev d c with
    | .error e => ([], .error (.error e))
    | .ok g =>
      let seed := c.seed.getD setting.freshSeed
      let first := deviceEvents g
      match Content.make c.blockSize.toNat seed c.mode with
      | .error f => (first, .error (.fault f))
      | .ok content =>
        match content.selfCheck with
        | .error e => (first, .error e)
        | .ok () =>
          let events := first ++ openingEvents c seed g
          let run : Except Fault (Run σ) := do
            let shared ← sharedFor c g setting.stopped
            let job ← jobFor c g content setting.start
            let workers ← makeWorkers c job setting.entropy
            let log := events.reverse.map (LogEntry.mk none)
            return ⟨seed, job, shared, d, workers, log, []⟩
          (events, run.mapError .fault)

def ended (r : Run σ) : Bool :=
  r.workers.all Worker.ended

def step (dev : Device σ) (now : Instant) (i : Nat) (r : Run σ) : Run σ :=
  match r.workers[i]? with
  | none => r
  | some w =>
    let t := w.step dev r.job now r.shared r.device
    { r with
      shared := t.shared
      device := t.device
      workers := r.workers.setIfInBounds i t.worker
      log := (t.events.map (LogEntry.mk (some w.id))).reverse ++ r.log
      printed := t.printed.toList ++ r.printed }

def interrupt (r : Run σ) : Run σ :=
  { r with shared := { r.shared with stop := r.shared.stop.setFlag true } }

/-- What may happen next: a step of one worker at some time, or a signal. -/
inductive Move
  | step (worker : Nat) (now : Instant)
  | interrupt

def move (dev : Device σ) (r : Run σ) : Move → Run σ
  | .step i now => r.step dev now i
  | .interrupt => r.interrupt

/-- Everything that happens, in order. -/
def play (dev : Device σ) (r : Run σ) (moves : List Move) : Run σ :=
  moves.foldl (move dev) r

/-- The results of the workers in the order of their numbers, up to the first that failed: the rates
of the last that has any. -/
def collect : RateSamples → List Worker → Except Error RateSamples
  | rates, [] => .ok rates
  | rates, w :: rest =>
    match w.phase with
    | .stopped (.ok samples) => collect (samples.getD rates) rest
    | .stopped (.error e) => .error e
    | _ => .error ⟨.invariant, "a worker thread panicked"⟩

def leftover (k : RangeLock) : Except Failure Unit := do
  let active ← k.activeLeases.mapError .fault
  if active ≠ [] then throw (.error (RangeLock.Violation.stillHeld active.length).error)

def finish (now : Instant) (r : Run σ) : Except Failure Summary := do
  let rates ← (collect .empty r.workers.toList).mapError .error
  (r.shared.lock.checkDisjoint.mapError RangeLock.Violation.error).mapError .error
  leftover r.shared.lock
  return {
    config := r.job.config
    seed := r.seed
    geometry := r.job.geometry
    elapsedSeconds := (now.since r.job.start).toFloat
    stats := r.shared.stats
    stopReason := r.shared.stop.reason
    rates }

def closingEvent (now : Instant) (r : Run σ) : Event :=
  .finished (now.since r.job.start) r.shared.stop.reason

def round (dev : Device σ) (now : Instant) (r : Run σ) : Run σ :=
  Nat.fold r.workers.size (fun i _ r => r.step dev now i) r

end Run

end Readback
