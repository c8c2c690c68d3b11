import Readback.Config.File
import Readback.Device.File
import Readback.Files.Document
import Readback.Json.Summary
import Readback.Options.Reader
import Readback.Run

namespace Readback

/-- Why the program ends without success. -/
inductive Complaint
  | usage (r : Options.Refusal)
  | noConfig (path : String)
  | badConfig (path : String)
  | noDevice
  | failed (e : Error)
  | notWritten (e : FileError)
  | mismatches (n : UInt64)
  /-- A check of the program itself failed, and it ended at once. -/
  | faulted (f : Fault)
  deriving DecidableEq, Repr

namespace Complaint

/-- What the program says of it, unless it says something that is not fixed. -/
def text? : Complaint → Option String
  | usage _ => none
  | noConfig path => some s!"read {Text.quoted path}"
  | badConfig path => some s!"parse {Text.quoted path}"
  | noDevice => some "no device given, use --device or the config file"
  | failed e => some e.message
  | notWritten e => e.message?
  | mismatches n => some s!"{n} blocks failed verification, see logs for details"
  | faulted _ => none

def status : Complaint → Nat
  | usage (.help _) => 0
  | usage _ => 2
  | _ => 1

end Complaint

/-- How the program ended: what it printed after the run, the files it left, and why it was not a
success, if it was none. -/
structure Ending where
  printed : List String
  files : Files
  complaint : Option Complaint

def Ending.status (e : Ending) : Nat :=
  e.complaint.elim 0 Complaint.status

/-- The configuration in a settings file, which may be one that no run accepts. -/
def Config.load (f : Files) (path : String) : Except Complaint Config :=
  match f.text? path with
  | none => .error (.noConfig path)
  | some text => (ofToml text).mapError fun
    | .malformed => .badConfig path
    | .fault f => .faulted f

/-- The configuration of a run: the settings file, if there is one, under the flags.  It is checked
when both are known. -/
def Options.config? (o : Options) (f : Files) : Except Complaint Config := do
  let c ← o.config.elim (pure Config.standard) (Config.load f)
  let merged := o.apply c
  (merged.validate.mapError Config.Refusal.error).mapError .failed
  return merged

/-- A run that the program has started. -/
structure Program where
  options : Options
  run : Run OpenFile

namespace Program

def open? (c : Config) (f : Files) : Except Complaint OpenFile := do
  let some path := c.device | throw .noDevice
  (OpenFile.open f path).mapError .failed

def ofFailure : Failure → Complaint
  | .error e => .failed e
  | .fault f => .faulted f

def ofRefusal : Options.Refusal → Complaint
  | .faulted f => .faulted f
  | r => .usage r

/-- What the program finds out before it starts a run. -/
def ready (arguments : List String) (f : Files) :
    Except Complaint (Options × Config × OpenFile) := do
  let options ← (Options.read arguments).mapError ofRefusal
  let c ← options.config? f
  return (options, c, ← open? c f)

/-- Starts a run, or says why there is none.  The files are those that are there then. -/
def start (arguments : List String) (f : Files) (setting : Run.Setting) :
    Files × Except Complaint Program :=
  match ready arguments f with
  | .error e => (f, .error e)
  | .ok (options, c, file) =>
    match (Run.start OpenFile.device file c setting).2 with
    | .error e => (file.files, .error (ofFailure e))
    | .ok run => (run.device.files, .ok ⟨options, run⟩)

/-- The first of the workers' own checks that failed, which ends the program at once. -/
def crash? (p : Program) : Option Fault :=
  p.run.workers.toList.findSome? fun w =>
    match w.phase with
    | .crashed f => some f
    | _ => none

def megabytes (x : Float32) : String :=
  RateSummary.two (x / 1024.0 / 1024.0)

def iopsLine (s : RateSummary) : String :=
  s!"iterations/s {s.text}"

def bandwidthLine (s : RateSummary) : String :=
  s!"write MB/s mean {megabytes s.mean} min {megabytes s.least} max {megabytes s.greatest}"

/-- The lines about a summary, as far as they come. -/
def report (s : Summary) : List String × Except Fault Unit :=
  match s.line with
  | .error f => ([], .error f)
  | .ok line =>
    match RateSummary.of s.rates.iops with
    | .error f => ([line], .error f)
    | .ok iops =>
      let lines := line :: (iops.map iopsLine).toList
      match RateSummary.of s.rates.bandwidth with
      | .error f => (lines, .error f)
      | .ok bandwidth =>
        (lines ++ (bandwidth.map bandwidthLine).toList ++ [s!"seed {s.seed}"], .ok ())

def save (o : Options) (s : Summary) (draws : List String) (f : Files) :
    Files × Except FileError Unit :=
  match o.summaryOut with
  | .none => (f, .ok ())
  | some path => f.writeJson path draws s.json true

/-- Reports a summary and writes it, also if blocks failed verification. -/
def conclude (o : Options) (s : Summary) (draws : List String) (files : Files) : Ending :=
  match report s with
  | (lines, .error f) => ⟨lines, files, some (.faulted f)⟩
  | (lines, .ok ()) =>
    match save o s draws files with
    | (files, .error e) => ⟨lines, files, some (.notWritten e)⟩
    | (files, .ok ()) =>
      ⟨lines, files, if s.passed then none else some (.mismatches s.stats.mismatches)⟩

/-- Ends the program when all workers have stopped, or one of them crashed. -/
def finish (p : Program) (now : Instant) (draws : List String) : Ending :=
  let files := p.run.device.files
  match p.crash? with
  | some f => ⟨[], files, some (.faulted f)⟩
  | .none =>
    match p.run.finish now with
    | .error e => ⟨[], files, some (ofFailure e)⟩
    | .ok s => conclude p.options s draws files

def refused (files : Files) (c : Complaint) : Ending :=
  ⟨[], files, some c⟩

/-- The whole program, in which `moves` happen while the run goes on and `draws` are the names it
makes up. -/
def play (arguments : List String) (files : Files) (setting : Run.Setting) (moves : List Run.Move)
    (now : Instant) (draws : List String) : Ending :=
  match start arguments files setting with
  | (files, .error c) => refused files c
  | (_, .ok p) => { p with run := p.run.play OpenFile.device moves }.finish now draws

end Program

end Readback
