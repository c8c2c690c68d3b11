import Readback.Config
import Readback.Time.Text

namespace Readback

/-- What may be said on the command line. -/
inductive Flag
  | device
  | blockSize
  | maxBlocks
  | uniquePct
  | trimPct
  | workers
  | stopAtFull
  | fast
  | count
  | duration
  | seed
  | stopOnFailure
  | reportInterval
  | maxDiagnostics
  | config
  | summaryOut
  | verbose
  | help
  deriving DecidableEq, Repr

namespace Flag

def all : List Flag :=
  [device, blockSize, maxBlocks, uniquePct, trimPct, workers, stopAtFull, fast, count, duration,
    seed, stopOnFailure, reportInterval, maxDiagnostics, config, summaryOut, verbose, help]

def name : Flag → String
  | device => "device"
  | blockSize => "block-size"
  | maxBlocks => "max-blocks"
  | uniquePct => "unique-pct"
  | trimPct => "trim-pct"
  | workers => "workers"
  | stopAtFull => "stop-at-full"
  | fast => "fast"
  | count => "count"
  | duration => "duration"
  | seed => "seed"
  | stopOnFailure => "stop-on-failure"
  | reportInterval => "report-interval"
  | maxDiagnostics => "max-diagnostics"
  | config => "config"
  | summaryOut => "summary-out"
  | verbose => "verbose"
  | help => "help"

def letter? : Flag → Option Char
  | device => some 'd'
  | blockSize => some 'b'
  | maxBlocks => some 'm'
  | uniquePct => some 'u'
  | trimPct => some 'T'
  | workers => some 'n'
  | stopAtFull => some 't'
  | fast => some 'f'
  | count => some 'c'
  | verbose => some 'v'
  | help => some 'h'
  | _ => none

/-- Whether the flag is a switch, and takes no value. -/
def isSwitch : Flag → Bool
  | stopAtFull | fast | stopOnFailure | verbose | help => true
  | _ => false

def description : Flag → String
  | device => "Device (or file) to test"
  | blockSize => "Block size in bytes"
  | maxBlocks => "Maximum number of blocks in one operation"
  | uniquePct =>
    "Percentage of blocks written with unique content, for testing de-duplicating devices"
  | trimPct => "Percentage of blocks to trim"
  | workers => "Number of worker threads"
  | stopAtFull => "Stop once as many blocks were verified as the device has"
  | fast => "Generate content with a seeded PRNG instead of hashing"
  | count => "Stop after this many iterations, over all workers"
  | duration => "Stop after this long, e.g. \"10m\" or \"1h 30m\""
  | seed => "Run seed, to reproduce the content of an earlier run"
  | stopOnFailure => "Stop at the first block that reads back wrong"
  | reportInterval => "How often to print a status line"
  | maxDiagnostics => "Mismatches each worker reports in detail before only counting them"
  | config => "TOML file with run settings.  Flags override it"
  | summaryOut => "Write the final summary here as JSON"
  | verbose => "Log every iteration"
  | help => "Print help"

def ofName? (s : String) : Option Flag :=
  all.find? (·.name = s)

def ofLetter? (c : Char) : Option Flag :=
  all.find? (·.letter? = some c)

end Flag

/-- The flags that were given, with their values. -/
structure Options where
  device : Option String
  blockSize : Option UInt64
  maxBlocks : Option UInt64
  uniquePct : Option UInt8
  trimPct : Option UInt8
  workers : Option UInt64
  stopAtFull : Bool
  fast : Bool
  count : Option UInt64
  duration : Option Duration
  seed : Option UInt64
  stopOnFailure : Bool
  reportInterval : Option Duration
  maxDiagnostics : Option UInt64
  config : Option String
  summaryOut : Option String
  verbose : Bool
  deriving DecidableEq, Repr

namespace Options

def none : Options where
  device := .none
  blockSize := .none
  maxBlocks := .none
  uniquePct := .none
  trimPct := .none
  workers := .none
  stopAtFull := false
  fast := false
  count := .none
  duration := .none
  seed := .none
  stopOnFailure := false
  reportInterval := .none
  maxDiagnostics := .none
  config := .none
  summaryOut := .none
  verbose := false

def has (o : Options) : Flag → Bool
  | .device => o.device.isSome
  | .blockSize => o.blockSize.isSome
  | .maxBlocks => o.maxBlocks.isSome
  | .uniquePct => o.uniquePct.isSome
  | .trimPct => o.trimPct.isSome
  | .workers => o.workers.isSome
  | .stopAtFull => o.stopAtFull
  | .fast => o.fast
  | .count => o.count.isSome
  | .duration => o.duration.isSome
  | .seed => o.seed.isSome
  | .stopOnFailure => o.stopOnFailure
  | .reportInterval => o.reportInterval.isSome
  | .maxDiagnostics => o.maxDiagnostics.isSome
  | .config => o.config.isSome
  | .summaryOut => o.summaryOut.isSome
  | .verbose => o.verbose
  | .help => false

/-- The settings of a configuration, replaced by those that were given.  Switches only add. -/
def apply (o : Options) (c : Config) : Config where
  device := o.device.or c.device
  blockSize := o.blockSize.getD c.blockSize
  maxBlocksPerOp := o.maxBlocks.getD c.maxBlocksPerOp
  uniquePct := o.uniquePct.getD c.uniquePct
  trimPct := o.trimPct.getD c.trimPct
  workers := o.workers.getD c.workers
  mode := if o.fast then .fast else c.mode
  seed := o.seed.or c.seed
  count := o.count.or c.count
  duration := o.duration.or c.duration
  reportInterval := o.reportInterval.getD c.reportInterval
  stopAtFull := c.stopAtFull || o.stopAtFull
  stopOnFailure := c.stopOnFailure || o.stopOnFailure
  maxDiagnostics := o.maxDiagnostics.getD c.maxDiagnostics

end Options

end Readback
