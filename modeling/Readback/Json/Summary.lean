import Readback.Config.Fields
import Readback.Summary

namespace Readback

open Json

namespace Config

def fieldJson (c : Config) : Field → Json
  | .device => optional .text c.device
  | .blockSize => .uint64 c.blockSize
  | .maxBlocksPerOp => .uint64 c.maxBlocksPerOp
  | .uniquePct => .nat c.uniquePct.toNat
  | .trimPct => .nat c.trimPct.toNat
  | .workers => .uint64 c.workers
  | .mode => c.mode.json
  | .seed => optional .uint64 c.seed
  | .count => optional .uint64 c.count
  | .duration => optional (fun d => .text d.text) c.duration
  | .reportInterval => .text c.reportInterval.text
  | .stopAtFull => .bool c.stopAtFull
  | .stopOnFailure => .bool c.stopOnFailure
  | .maxDiagnostics => .uint64 c.maxDiagnostics

def json (c : Config) : Json :=
  .record (Field.all.map fun field => (field.name, c.fieldJson field))

def jsonFormat : Format Json where
  uint64? := Json.uint64?
  uint8? := Json.uint8?
  bool? := Json.bool?
  text? := Json.text?
  name? := Json.name?
  isNull
    | .null => true
    | _ => false

/-- A configuration may leave out any field; an array may leave out those at the end. -/
def ofJson (v : Json) : Except Unreadable Config := do
  let names := Field.all.map Field.name
  let c ← jsonFormat.config (← orMalformed (v.entries? names))
  if v.fits names then return c else throw .malformed

end Config

/-- A whole number of 64 bits is rounded once, any other number to double precision first. -/
def Json.float32? : Json → Option Float32
  | .number n =>
    if n.isWhole ∧ n.whole < (if n.negative then 2 ^ 63 + 1 else 2 ^ 64) then
      let x := n.whole.toUInt64.toFloat32
      some (if n.negative then -x else x)
    else n.toFloat?.map Float.toFloat32
  | _ => none

namespace RateSamples

/-- The samples, each as what `sample` makes of it. -/
def jsonWith (sample : Float32 → Json) (r : RateSamples) : Json :=
  .record [("iops", .array (r.iops.map sample)), ("bw", .array (r.bandwidth.map sample))]

def ofJson? (v : Json) : Option RateSamples := do
  let [iops, bandwidth] ← v.members? ["iops", "bw"] | none
  return ⟨← (← iops).list? Json.float32?, ← (← bandwidth).list? Json.float32?⟩

end RateSamples

namespace Summary

/-- A summary, whose rates are what `sample` makes of them. -/
def jsonWith (sample : Float32 → Json) (s : Summary) : Json :=
  .record [
    ("config", s.config.json),
    ("seed", .uint64 s.seed),
    ("geometry", s.geometry.json),
    ("elapsed_secs", .ofFloat s.elapsedSeconds),
    ("stats", s.stats.json),
    ("stop_reason", optional Stop.Reason.json s.stopReason),
    ("rates", s.rates.jsonWith sample)]

/-- A summary as it is written, with as few digits as tell each rate from its neighbours. -/
def json : Summary → Json :=
  jsonWith .ofFloat32

/-- A summary as a value, whose numbers are all of double precision. -/
def wideJson : Summary → Json :=
  jsonWith fun x => .ofFloat x.toFloat

def fieldNames : List String :=
  ["config", "seed", "geometry", "elapsed_secs", "stats", "stop_reason", "rates"]

/-- A summary as far as it was read. -/
structure Draft where
  config : Option Config
  seed : Option UInt64
  geometry : Option Geometry
  elapsedSeconds : Option Float
  stats : Option Stats
  stopReason : Option (Option Stop.Reason)
  rates : Option RateSamples

namespace Draft

def empty : Draft :=
  ⟨none, none, none, none, none, none, none⟩

/-- What becomes known, if it was not known before. -/
def fill {α : Type} (old : Option α) (new : Except Unreadable α) : Except Unreadable (Option α) :=
  if old.isSome then .error .malformed else new.map some

/-- Reads one more field; those that a summary does not have are skipped. -/
def add (d : Draft) : Option String × Json → Except Unreadable Draft
  | (none, _) => .error .malformed
  | (some k, v) => do
    match k with
    | "config" => return { d with config := ← fill d.config (Config.ofJson v) }
    | "seed" => return { d with seed := ← fill d.seed (orMalformed v.uint64?) }
    | "geometry" =>
      return { d with geometry := ← fill d.geometry (orMalformed (Geometry.ofJson? v)) }
    | "elapsed_secs" =>
      return { d with elapsedSeconds := ← fill d.elapsedSeconds (orMalformed v.float?) }
    | "stats" => return { d with stats := ← fill d.stats (orMalformed (Stats.ofJson? v)) }
    | "stop_reason" =>
      let reason := optional? Stop.Reason.ofJson? v
      return { d with stopReason := ← fill d.stopReason (orMalformed reason) }
    | "rates" => return { d with rates := ← fill d.rates (orMalformed (RateSamples.ofJson? v)) }
    | _ => return d

/-- The summary, once all of it is known.  There may be no reason why the run stopped. -/
def summary? (d : Draft) : Option Summary := do
  return {
    config := ← d.config
    seed := ← d.seed
    geometry := ← d.geometry
    elapsedSeconds := ← d.elapsedSeconds
    stats := ← d.stats
    stopReason := d.stopReason.join
    rates := ← d.rates }

end Draft

def ofJson (v : Json) : Except Unreadable Summary := do
  let draft ← (← orMalformed (v.entries? fieldNames)).foldlM Draft.add .empty
  if v.fits fieldNames then orMalformed draft.summary? else throw .malformed

end Summary

end Readback
