import Readback.Config
import Readback.Outcome

namespace Readback

inductive Level
  | error
  | warning
  | info
  | debug
  deriving DecidableEq, Repr

def Level.text : Level → String
  | error => "ERROR"
  | warning => "WARNING"
  | info => "INFO"
  | debug => "DEBUG"

/-- What a run has to say while it goes on. -/
inductive Event
  | sized (g : Geometry)
  /-- Bytes at the end of the device that are left alone. -/
  | untested (bytes : Nat)
  | settled (seed : UInt64) (c : Config) (nBlocks : Nat)
  | unbounded
  | finished (elapsed : Duration) (reason : Option Stop.Reason)
  | compared (range : BlockRange) (o : Outcome)
  | readFailed (range : BlockRange) (e : Error)
  | mismatch (m : Mismatch)
  /-- Said once, in place of the mismatches that are no longer described. -/
  | muted
  | writeFailed (range : BlockRange) (e : Error)
  | noDiscard (text : String)
  | aborting (e : Error)
  | done
  deriving DecidableEq

namespace Event

def level : Event → Level
  | sized _ | settled .. | unbounded | finished .. => .info
  | untested _ | readFailed .. | writeFailed .. | noDiscard _ => .warning
  | mismatch _ | muted | aborting _ => .error
  | compared .. | done => .debug

def reasonText (r : Option Stop.Reason) : String :=
  (r.map Stop.Reason.text).getD "no reason"

def secondsText (d : Duration) : String :=
  match Binary.ofFloat d.toFloat with
  | .finite _ m e => Decimal.pointed 1 (Decimal.roundDiv (m * 10 * 2 ^ e.toNat) (2 ^ (-e).toNat))
  | _ => "inf"

def message : Event → String
  | sized g => s!"device size {g.devSize} bytes, {g.nBlocks} blocks of {g.blockSize}"
  | untested bytes => s!"last {bytes} bytes of the device are not tested"
  | settled seed c nBlocks =>
    s!"seed {seed} mode {c.mode.text} workers {c.workers} "
      ++ s!"max blocks per op {min c.maxBlocksPerOp.toNat nBlocks} "
      ++ s!"unique {c.uniquePct}% trim {c.trimPct}%"
  | unbounded => "no stop condition given, running until signalled"
  | finished elapsed reason => s!"run finished after {secondsText elapsed}s: {reasonText reason}"
  | compared range o =>
    s!"{range.text} verified {o.verified} skipped {o.skipped} mismatched {o.mismatches.length}"
  | readFailed range e => s!"read of {range.text} failed: {e.message}"
  | mismatch _ => "integrity mismatch"
  | muted => "further mismatches from this worker are counted only"
  | writeFailed range e => s!"write of {range.text} failed: {e.message}"
  | noDiscard text => s!"discard not supported: {text}"
  | aborting e => s!"worker aborting: {e.message}"
  | done => "worker done"

/-- The details of an event, each under its name, in the order of the names. -/
def details : Event → List (String × String)
  | mismatch m => [
      ("actual", Bytes.hex m.actual),
      ("block", toString m.block),
      ("expected", Bytes.hex m.expected),
      ("expected_tag", m.tag.text),
      ("first_diff", toString m.firstDiff),
      ("offset", toString m.offset)]
  | _ => []

end Event

/-- An event, and the worker it comes from unless it comes from the run itself. -/
structure LogEntry where
  worker : Option Nat
  event : Event
  deriving DecidableEq

namespace LogEntry

def details (l : LogEntry) : List (String × String) :=
  l.event.details ++ (l.worker.map fun id => ("worker", toString id)).toList

def textWith (l : LogEntry) (message : String) : String :=
  let details := l.details.map fun (k, v) => s!" {k}={v}"
  l.event.level.text ++ " " ++ message ++ String.join details

def text (l : LogEntry) : String :=
  l.textWith l.event.message

end LogEntry

end Readback
