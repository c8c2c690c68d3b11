import Readback.Device
import Readback.Event
import Readback.Stats.Reporter

namespace Readback

/-- What stays the same for the whole run. -/
structure Job where
  config : Config
  geometry : Geometry
  content : Content
  policy : Stop.Policy
  start : Instant

/-- What the workers of a run share, apart from the device. -/
structure Shared where
  lock : RangeLock
  stats : Stats
  stop : Stop.Signal
  /-- Whether it was said already that the device cannot discard. -/
  discardWarned : Bool

/-- An iteration whose lease was read back and whose new content is ready. -/
structure Batch where
  lease : Lease
  outcome : Outcome
  tags : List Tag
  data : ByteArray

def Batch.range (b : Batch) : BlockRange :=
  b.lease.range

/-- What a worker is about to do next; each is one step that no other worker can interrupt. -/
inductive Phase
  /-- Look at the stop flag. -/
  | polling
  /-- Try a round of candidate ranges. -/
  | acquiring
  | invalidating (l : Lease)
  | reading (l : Lease)
  | writing (b : Batch)
  | discarding (b : Batch) (run : BlockRange) (rest : List BlockRange)
  | flushing (b : Batch)
  /-- Invalidate once more, now that the content is durable. -/
  | dropping (b : Batch)
  | releasing (b : Batch) (written : Bool)
  /-- Add to one counter after another. -/
  | recording (c : Counter) (v : UInt64) (rest : List (Counter × UInt64))
  /-- Look at the clock to see if a report is due. -/
  | reporting
  /-- Read one counter after another for the report. -/
  | sampling (now : Instant) (seen : Stats) (pending : List Counter)
  /-- Read one counter after another for the stop policy. -/
  | checking (seen : Stats) (pending : List Counter)
  /-- Look at the clock and see if a stop condition is met. -/
  | judging (seen : Stats)
  /-- Give a reason to stop. -/
  | giving (reason : Stop.Reason) (cause : Option Error)
  /-- Raise the stop flag. -/
  | raising (cause : Option Error)
  | stopped (result : Except Error (Option RateSamples))
  | crashed (f : Fault)

structure Worker where
  id : Nat
  source : Source
  phase : Phase
  diagnosticsLeft : Nat
  muted : Bool
  reporter : Option Reporter

namespace Worker

def stride : UInt64 := 0x9E3779B97F4A7C15

/-- The seed of a worker's own random words. -/
def seedFor (seed : UInt64) (id : Nat) : UInt64 :=
  seed ^^^ id.toUInt64 * stride

/-- The random words of a worker, from its seed, or from `entropy` if there is none. -/
def sourceFor (c : Config) (id : Nat) (entropy : Source) : Source :=
  match c.seed with
  | some seed => .ofSeed (seedFor seed id)
  | none => entropy

def make (j : Job) (id : Nat) (entropy : Source) : Except Fault Worker :=
  if j.content.blockSize ≠ j.geometry.blockSize then .error .assertion
  else .ok {
    id
    source := sourceFor j.config id entropy
    phase := .polling
    diagnosticsLeft := j.config.maxDiagnostics.toNat
    muted := false
    reporter :=
      if id = 0 then some (.make j.config.reportInterval j.geometry.nBlocks j.start) else none }

def ended (w : Worker) : Bool :=
  match w.phase with
  | .stopped _ | .crashed _ => true
  | _ => false

/-- Describes mismatches while the budget lasts, and then says once that they are only counted. -/
def describe (w : Worker) : List Mismatch → List Event × Worker
  | [] => ([], w)
  | m :: rest =>
    if 0 < w.diagnosticsLeft then
      let (events, w) := { w with diagnosticsLeft := w.diagnosticsLeft - 1 }.describe rest
      (.mismatch m :: events, w)
    else if w.muted then w.describe rest
    else
      let (events, w) := { w with muted := true }.describe rest
      (.muted :: events, w)

def logOutcome (w : Worker) (range : BlockRange) (o : Outcome) : List Event × Worker :=
  let (events, w) := w.describe o.mismatches
  (.compared range o :: (o.readError.map (.readFailed range)).toList ++ events, w)

def compose (j : Job) : List Nat → Source → Except Fault (List (Tag × ByteArray) × Source)
  | [], s => .ok ([], s)
  | block :: rest, s => do
    let some (tag, s) := Tag.pick j.config.uniquePct.toNat j.config.trimPct.toNat s
      | throw .exhausted
    let offset ← j.geometry.byteOffset block
    let bytes ← j.content.block offset tag
    let (others, s) ← compose j rest s
    return ((tag, bytes) :: others, s)

/-- The runs of trimmed blocks up to `stop`, given where the one that is open starts.  A trimmed
block opens a run, another block closes it, and so does the end. -/
def openRuns (stop : Nat) : Option Nat → List (Nat × Tag) → List BlockRange
  | none, [] => []
  | some start, [] => [⟨start, stop⟩]
  | none, (block, .trimmed) :: rest => openRuns stop (some block) rest
  | some start, (_, .trimmed) :: rest => openRuns stop (some start) rest
  | some start, (block, _) :: rest => ⟨start, block⟩ :: openRuns stop none rest
  | none, _ :: rest => openRuns stop none rest

/-- The longest ranges of neighbouring blocks that are tagged as trimmed. -/
def trimmedRuns (r : BlockRange) (tags : List Tag) : List BlockRange :=
  openRuns r.stop none (r.blocks.zip tags)

/-- What a step leaves behind: the worker, the shared state, the device, and what was said. -/
structure Turn (σ : Type) where
  worker : Worker
  shared : Shared
  device : σ
  events : List Event
  printed : Option String

section Step

variable {σ : Type} (dev : Device σ) (j : Job) (now : Instant) (w : Worker) (s : Shared) (d : σ)

def Turn.quiet : Turn σ :=
  ⟨w, s, d, [], none⟩

def goto (p : Phase) : Turn σ :=
  .quiet { w with phase := p } s d

def crash (f : Fault) : Turn σ :=
  goto w s d (.crashed f)

/-- Goes on with the value of a computation, or crashes with its fault. -/
def orCrash {α : Type} (x : Except Fault α) (k : α → Turn σ) : Turn σ :=
  match x with
  | .ok a => k a
  | .error f => crash w s d f

/-- Asks the device, and goes on with its answer unless it gave way. -/
def ask (r : Request) (k : Except Error r.Reply → σ → Turn σ) : Turn σ :=
  match dev.answer r d with
  | (.ok reply, d) => k (.ok reply) d
  | (.error (.error e), d) => k (.error e) d
  | (.error (.fault f), d) => crash w s d f

/-- With the outcome known, logs it and makes the new content of the lease. -/
def prepare (l : Lease) (o : Outcome) : Turn σ :=
  let (events, w) := w.logOutcome l.range o
  let turn := match compose j l.range.blocks w.source with
    | .error f => crash w s d f
    | .ok (blocks, source) =>
      let data := Bytes.concat (blocks.map Prod.snd)
      goto { w with source } s d (.writing ⟨l, o, blocks.map Prod.fst, data⟩)
  { turn with events }

def poll : Turn σ :=
  if s.stop.raised then
    { goto w s d (.stopped (.ok (w.reporter.map Reporter.samples))) with events := [.done] }
  else goto w s d .acquiring

def acquire : Turn σ :=
  orCrash w s d (s.lock.tryCandidates RangeLock.attempts w.source) fun
    | (none, source) => .quiet { w with source } s d
    | (some (l, lock), source) =>
      let w := { w with source }
      let s := { s with lock }
      if l.anyWritten then goto w s d (.invalidating l)
      else orCrash w s d l.range.length fun n => prepare j w s d l (.untouched n)

def invalidate (l : Lease) : Turn σ :=
  orCrash w s d (j.geometry.rangeBytes l.range) fun (offset, n) =>
    ask dev w s d (.invalidate offset n) fun _ d => goto w s d (.reading l)

def readBack (l : Lease) : Turn σ :=
  orCrash w s d (j.geometry.rangeBytes l.range) fun (offset, n) =>
    ask dev w s d (.read offset n) fun
      | .error e, d => prepare j w s d l (.unread l e)
      | .ok bytes, d =>
        orCrash w s d (Outcome.ofBytes j.content j.geometry l bytes.1) fun o => prepare j w s d l o

def giveUp (b : Batch) (e : Error) : Turn σ :=
  { goto w s d (.releasing b false) with events := [.writeFailed b.range e] }

/-- Discards the next run, or flushes if there is none. -/
def discardNext (b : Batch) : List BlockRange → Phase
  | [] => .flushing b
  | run :: rest => .discarding b run rest

def write (b : Batch) : Turn σ :=
  orCrash w s d (j.geometry.rangeBytes b.range) fun (offset, _) =>
    ask dev w s d (.write offset b.data) fun
      | .error e, d => giveUp w s d b e
      | .ok _, d => goto w s d (discardNext b (trimmedRuns b.range b.tags))

/-- Discards a run.  A device that cannot discard is told no more of them: the blocks were written
as zeroes anyway. -/
def discard (b : Batch) (run : BlockRange) (rest : List BlockRange) : Turn σ :=
  orCrash w s d (j.geometry.rangeBytes run) fun (offset, n) =>
    ask dev w s d (.discard offset n) fun
      | .ok _, d => goto w s d (discardNext b rest)
      | .error e, d =>
        if e.kind = .unsupported then
          { goto w { s with discardWarned := true } d (.flushing b) with
            events := if s.discardWarned then [] else [.noDiscard e.text] }
        else giveUp w s d b e

def flush (b : Batch) : Turn σ :=
  ask dev w s d .flush fun
    | .error e, d => giveUp w s d b e
    | .ok _, d => goto w s d (.dropping b)

def drop (b : Batch) : Turn σ :=
  orCrash w s d (j.geometry.rangeBytes b.range) fun (offset, n) =>
    ask dev w s d (.invalidate offset n) fun _ d => goto w s d (.releasing b true)

/-- What is known of the blocks of a batch: nothing, if they were not written. -/
def newStates (b : Batch) (written : Bool) : List BlockState :=
  b.tags.map fun t => if written then some t else none

def recordOf (b : Batch) (written : Bool) (blocks bytes newly : Nat) : Record where
  blocks
  bytesWritten := if written then bytes else 0
  verified := b.outcome.verified
  verifiedDuplicate := b.outcome.verifiedDuplicate
  verifiedTrimmed := b.outcome.verifiedTrimmed
  newlyCovered := newly
  readErrors := if b.outcome.readError.isSome then 1 else 0
  writeErrors := if written then 0 else 1
  mismatches := b.outcome.mismatches.length

/-- Adds to the next counter, or reports if there is none. -/
def recordNext : List (Counter × UInt64) → Phase
  | [] => .reporting
  | (c, v) :: rest => .recording c v rest

def release (b : Batch) (written : Bool) : Turn σ :=
  match s.lock.release b.lease (newStates b written) b.outcome.verifiedBlocks with
  | .error (.fault f) => crash w s d f
  | .error (.error e) =>
    { goto w s d (.giving .aborted (some e)) with events := [.aborting e] }
  | .ok (newly, lock) =>
    let s := { s with lock }
    orCrash w s d (j.geometry.rangeBytes b.range) fun (_, bytes) =>
      orCrash w s d b.range.length fun blocks =>
        let r := recordOf b written blocks bytes newly
        orCrash w s d r.failed fun failed =>
          goto w s d (recordNext (r.seen ++ Record.closing failed))

def record (c : Counter) (v : UInt64) (rest : List (Counter × UInt64)) : Turn σ :=
  goto w { s with stats := s.stats.add c v } d (recordNext rest)

def startChecking : Phase :=
  .checking .zero Counter.all

def consider : Turn σ :=
  if w.reporter.any (·.due now) then goto w s d (.sampling now .zero Counter.all)
  else goto w s d startChecking

def sample (moment : Instant) (seen : Stats) : List Counter → Turn σ
  | c :: rest => goto w s d (.sampling moment (seen.set c (s.stats.get c)) rest)
  | [] =>
    match w.reporter with
    | none => goto w s d startChecking
    | some r =>
      let (line, r) := r.report seen moment
      { goto { w with reporter := some r } s d startChecking with printed := some line }

def check (seen : Stats) : List Counter → Turn σ
  | c :: rest => goto w s d (.checking (seen.set c (s.stats.get c)) rest)
  | [] => goto w s d (.judging seen)

def judge (seen : Stats) : Turn σ :=
  match j.policy.evaluate seen now with
  | some reason => goto w s d (.giving reason none)
  | none => goto w s d .polling

def give (reason : Stop.Reason) (cause : Option Error) : Turn σ :=
  goto w { s with stop := s.stop.give reason } d (.raising cause)

def raise (cause : Option Error) : Turn σ :=
  let s := { s with stop := s.stop.setFlag true }
  match cause with
  | some e => goto w s d (.stopped (.error e))
  | none => goto w s d .polling

/-- Does what the phase of the worker says; one that has ended does nothing. -/
def step : Turn σ :=
  match w.phase with
  | .polling => poll w s d
  | .acquiring => acquire j w s d
  | .invalidating l => invalidate dev j w s d l
  | .reading l => readBack dev j w s d l
  | .writing b => write dev j w s d b
  | .discarding b run rest => discard dev j w s d b run rest
  | .flushing b => flush dev w s d b
  | .dropping b => drop dev j w s d b
  | .releasing b written => release j w s d b written
  | .recording c v rest => record w s d c v rest
  | .reporting => consider now w s d
  | .sampling t seen pending => sample w s d t seen pending
  | .checking seen pending => check w s d seen pending
  | .judging seen => judge j now w s d seen
  | .giving reason cause => give w s d reason cause
  | .raising cause => raise w s d cause
  | .stopped _ => .quiet w s d
  | .crashed _ => .quiet w s d

end Step

end Worker

end Readback
