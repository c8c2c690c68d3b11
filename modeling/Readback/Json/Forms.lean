import Readback.Content
import Readback.Geometry
import Readback.Json.Record
import Readback.Stats
import Readback.Stop

namespace Readback

open Json

def Json.uint64? (v : Json) : Option UInt64 :=
  (v.nat? Word.limit).map Nat.toUInt64

def Json.uint8? (v : Json) : Option UInt8 :=
  (v.nat? 256).map Nat.toUInt8

def Json.uint64 (n : UInt64) : Json :=
  .nat n.toNat

namespace Tag

def json : Tag → Json
  | unique n => .record [("Unique", .nat n.toNat)]
  | duplicate => .text "Duplicate"
  | trimmed => .text "Trimmed"

def ofName? (s : String) : Option Tag :=
  if s = "Duplicate" then some duplicate
  else if s = "Trimmed" then some trimmed
  else none

def ofJson? : Json → Option Tag
  | .object [(some k, v)] =>
    if k = "Unique" then (v.nat? 65536).map fun n => unique n.toUInt16
    else (Json.object [(some k, v)]).name? >>= ofName?
  | v => v.name? >>= ofName?

end Tag

namespace BlockState

def json (s : BlockState) : Json :=
  optional Tag.json s

def ofJson? (v : Json) : Option BlockState :=
  optional? Tag.ofJson? v

end BlockState

namespace Mode

def name : Mode → String
  | hash => "hash"
  | fast => "fast"

def ofName? (s : String) : Option Mode :=
  [hash, fast].find? (·.name = s)

def json (m : Mode) : Json :=
  .text m.name

def ofJson? (v : Json) : Option Mode :=
  v.name? >>= ofName?

end Mode

namespace Stop.Reason

def name : Reason → String
  | iterationBudget => "iteration_budget"
  | deadline => "deadline"
  | fullCoverage => "full_coverage"
  | failure => "failure"
  | signalled => "signalled"
  | aborted => "aborted"

def ofName? (s : String) : Option Reason :=
  [iterationBudget, deadline, fullCoverage, failure, signalled, aborted].find? (·.name = s)

def json (r : Reason) : Json :=
  .text r.name

def ofJson? (v : Json) : Option Reason :=
  v.name? >>= ofName?

end Stop.Reason

namespace BlockRange

def json (r : BlockRange) : Json :=
  .record [("start", .nat r.start), ("end", .nat r.stop)]

/-- A range as it is written, which may be empty. -/
def ofJson? (v : Json) : Option BlockRange := do
  let [start, stop] ← v.members? ["start", "end"] | none
  return ⟨← (← start).nat? Word.limit, ← (← stop).nat? Word.limit⟩

end BlockRange

namespace Geometry

def json (g : Geometry) : Json :=
  .record [("dev_size", .nat g.devSize), ("block_size", .nat g.blockSize),
    ("n_blocks", .nat g.nBlocks)]

/-- A geometry as it is written, which may be none that `Geometry.make` makes. -/
def ofJson? (v : Json) : Option Geometry := do
  let [devSize, blockSize, nBlocks] ← v.members? ["dev_size", "block_size", "n_blocks"] | none
  return ⟨← (← devSize).nat? Word.limit, ← (← blockSize).nat? Word.limit,
    ← (← nBlocks).nat? Word.limit⟩

end Geometry

def Counter.name : Counter → String
  | iterations => "iterations"
  | blocksTouched => "blocks_touched"
  | bytesWritten => "bytes_written"
  | verified => "verified"
  | verifiedDuplicate => "verified_duplicate"
  | verifiedTrimmed => "verified_trimmed"
  | covered => "covered"
  | readErrors => "read_errors"
  | writeErrors => "write_errors"
  | mismatches => "mismatches"
  | failedIterations => "failed_iterations"

namespace Stats

def json (s : Stats) : Json :=
  .record (Counter.all.map fun c => (c.name, .uint64 (s.get c)))

/-- All counters at once, in their order. -/
def ofValues (values : List UInt64) : Stats :=
  (Counter.all.zip values).foldl (fun s (c, v) => s.set c v) .zero

def ofJson? (v : Json) : Option Stats := do
  let values ← v.members? (Counter.all.map Counter.name)
  return ofValues (← values.mapM fun v => do (← v).uint64?)

end Stats

end Readback
