import Readback.Stats
import Readback.Time

namespace Readback.Stop

/-- Why a run ended. -/
inductive Reason
  | iterationBudget
  | deadline
  | fullCoverage
  | failure
  | signalled
  /-- A worker met an error that it could not count and survive. -/
  | aborted
  deriving DecidableEq, Repr

def Reason.text : Reason → String
  | iterationBudget => "iteration count reached"
  | deadline => "duration elapsed"
  | fullCoverage => "verified count reached device size"
  | failure => "stopped on failure"
  | signalled => "stop requested"
  | aborted => "worker aborted"

/-- When a run ends by itself. -/
structure Policy where
  maxIterations : Option UInt64
  deadline : Option Instant
  untilVerified : Option UInt64
  stopOnFailure : Bool
  deriving DecidableEq, Repr

/-- The reason to stop at these counters and this time; of several, the first in this order. -/
def Policy.evaluate (p : Policy) (s : Stats) (now : Instant) : Option Reason :=
  if p.stopOnFailure ∧ 0 < s.mismatches then some .failure
  else if p.maxIterations.any (· ≤ s.iterations) then some .iterationBudget
  else if p.untilVerified.any (· ≤ s.verified) then some .fullCoverage
  else if p.deadline.any (·.nanos ≤ now.nanos) then some .deadline
  else none

/-- The stop flag, which may also be raised from outside, and the first reason given. -/
structure Signal where
  raised : Bool
  given : Option Reason
  deriving DecidableEq, Repr

namespace Signal

def make (raised : Bool) : Signal := ⟨raised, none⟩

/-- Gives a reason, which is kept if it is the first. -/
def give (s : Signal) (r : Reason) : Signal :=
  { s with given := s.given.or (some r) }

def setFlag (s : Signal) (raised : Bool) : Signal :=
  { s with raised }

def raise (s : Signal) (r : Reason) : Signal :=
  (s.give r).setFlag true

/-- The first reason given; a flag raised without any was raised from outside. -/
def reason (s : Signal) : Option Reason :=
  s.given.or (if s.raised then some .signalled else none)

end Signal

end Readback.Stop
