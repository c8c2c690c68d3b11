import Readback.Config
import Readback.Json.Forms
import Readback.Time.Text

namespace Readback.Config

/-- The fields of a written configuration. -/
inductive Field
  | device
  | blockSize
  | maxBlocksPerOp
  | uniquePct
  | trimPct
  | workers
  | mode
  | seed
  | count
  | duration
  | reportInterval
  | stopAtFull
  | stopOnFailure
  | maxDiagnostics
  deriving DecidableEq, Repr

namespace Field

def all : List Field :=
  [device, blockSize, maxBlocksPerOp, uniquePct, trimPct, workers, mode, seed, count, duration,
    reportInterval, stopAtFull, stopOnFailure, maxDiagnostics]

def name : Field → String
  | device => "device"
  | blockSize => "block_size"
  | maxBlocksPerOp => "max_blocks_per_op"
  | uniquePct => "unique_pct"
  | trimPct => "trim_pct"
  | workers => "workers"
  | mode => "mode"
  | seed => "seed"
  | count => "count"
  | duration => "duration"
  | reportInterval => "report_interval"
  | stopAtFull => "stop_at_full"
  | stopOnFailure => "stop_on_failure"
  | maxDiagnostics => "max_diagnostics"

def ofName? (s : String) : Option Field :=
  all.find? (·.name = s)

end Field

/-- How the values of a document format are read. -/
structure Format (α : Type) where
  uint64? : α → Option UInt64
  uint8? : α → Option UInt8
  bool? : α → Option Bool
  text? : α → Option String
  /-- One of several names. -/
  name? : α → Option String
  /-- Whether the value stands for nothing. -/
  isNull : α → Bool

namespace Format

variable {α β : Type}

def uint64 (f : Format α) (v : α) : Except Unreadable UInt64 :=
  orMalformed (f.uint64? v)

def uint8 (f : Format α) (v : α) : Except Unreadable UInt8 :=
  orMalformed (f.uint8? v)

def bool (f : Format α) (v : α) : Except Unreadable Bool :=
  orMalformed (f.bool? v)

def text (f : Format α) (v : α) : Except Unreadable String :=
  orMalformed (f.text? v)

def mode (f : Format α) (v : α) : Except Unreadable Mode :=
  orMalformed (f.name? v >>= Mode.ofName?)

def duration (f : Format α) (v : α) : Except Unreadable Duration := do
  Duration.parse (← f.text v)

def orNull (f : Format α) (read : α → Except Unreadable β) (v : α) :
    Except Unreadable (Option β) :=
  if f.isNull v then .ok none else (read v).map some

def assign (f : Format α) (c : Config) (v : α) : Field → Except Unreadable Config
  | .device => return { c with device := ← f.orNull f.text v }
  | .blockSize => return { c with blockSize := ← f.uint64 v }
  | .maxBlocksPerOp => return { c with maxBlocksPerOp := ← f.uint64 v }
  | .uniquePct => return { c with uniquePct := ← f.uint8 v }
  | .trimPct => return { c with trimPct := ← f.uint8 v }
  | .workers => return { c with workers := ← f.uint64 v }
  | .mode => return { c with mode := ← f.mode v }
  | .seed => return { c with seed := ← f.orNull f.uint64 v }
  | .count => return { c with count := ← f.orNull f.uint64 v }
  | .duration => return { c with duration := ← f.orNull f.duration v }
  | .reportInterval => return { c with reportInterval := ← f.duration v }
  | .stopAtFull => return { c with stopAtFull := ← f.bool v }
  | .stopOnFailure => return { c with stopOnFailure := ← f.bool v }
  | .maxDiagnostics => return { c with maxDiagnostics := ← f.uint64 v }

/-- Reads fields in the order in which they are written.  Each may be given once, and there are no
others. -/
def assignAll (f : Format α) (c : Config) (given : List Field) :
    List (Option String × α) → Except Unreadable Config
  | [] => .ok c
  | (k, v) :: rest => do
    let field ← orMalformed (k >>= Field.ofName?)
    if field ∈ given then throw .malformed
    f.assignAll (← f.assign c v field) (field :: given) rest

/-- The configuration that has these values in its fields, and standard ones in the others. -/
def config (f : Format α) (fields : List (Option String × α)) : Except Unreadable Config :=
  f.assignAll standard [] fields

end Format

end Readback.Config
