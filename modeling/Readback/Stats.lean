import Readback.Word

namespace Readback

/-- The run-wide counters.  Each wraps around at 64 bits. -/
structure Stats where
  iterations : UInt64
  blocksTouched : UInt64
  bytesWritten : UInt64
  verified : UInt64
  verifiedDuplicate : UInt64
  verifiedTrimmed : UInt64
  covered : UInt64
  readErrors : UInt64
  writeErrors : UInt64
  mismatches : UInt64
  failedIterations : UInt64
  deriving DecidableEq, Repr

inductive Counter
  | iterations
  | blocksTouched
  | bytesWritten
  | verified
  | verifiedDuplicate
  | verifiedTrimmed
  | covered
  | readErrors
  | writeErrors
  | mismatches
  | failedIterations
  deriving DecidableEq, Repr

def Counter.all : List Counter :=
  [.iterations, .blocksTouched, .bytesWritten, .verified, .verifiedDuplicate, .verifiedTrimmed,
    .covered, .readErrors, .writeErrors, .mismatches, .failedIterations]

namespace Stats

def zero : Stats := ⟨0, 0, 0, 0, 0, 0, 0, 0, 0, 0, 0⟩

def get (s : Stats) : Counter → UInt64
  | .iterations => s.iterations
  | .blocksTouched => s.blocksTouched
  | .bytesWritten => s.bytesWritten
  | .verified => s.verified
  | .verifiedDuplicate => s.verifiedDuplicate
  | .verifiedTrimmed => s.verifiedTrimmed
  | .covered => s.covered
  | .readErrors => s.readErrors
  | .writeErrors => s.writeErrors
  | .mismatches => s.mismatches
  | .failedIterations => s.failedIterations

def set (s : Stats) (c : Counter) (v : UInt64) : Stats :=
  match c with
  | .iterations => { s with iterations := v }
  | .blocksTouched => { s with blocksTouched := v }
  | .bytesWritten => { s with bytesWritten := v }
  | .verified => { s with verified := v }
  | .verifiedDuplicate => { s with verifiedDuplicate := v }
  | .verifiedTrimmed => { s with verifiedTrimmed := v }
  | .covered => { s with covered := v }
  | .readErrors => { s with readErrors := v }
  | .writeErrors => { s with writeErrors := v }
  | .mismatches => { s with mismatches := v }
  | .failedIterations => { s with failedIterations := v }

def add (s : Stats) (c : Counter) (v : UInt64) : Stats :=
  s.set c (s.get c + v)

@[simp] theorem get_set_self (s : Stats) (c : Counter) (v : UInt64) : (s.set c v).get c = v := by
  cases c <;> rfl

theorem get_set_of_ne (s : Stats) {c c' : Counter} (h : c' ≠ c) (v : UInt64) :
    (s.set c v).get c' = s.get c' := by
  cases c <;> cases c' <;> first | rfl | exact absurd rfl h

end Stats

/-- What one iteration of one worker adds to the counters. -/
structure Record where
  blocks : Nat
  bytesWritten : Nat
  verified : Nat
  verifiedDuplicate : Nat
  verifiedTrimmed : Nat
  newlyCovered : Nat
  readErrors : Nat
  writeErrors : Nat
  mismatches : Nat
  deriving DecidableEq, Repr

namespace Record

def failed (r : Record) : Except Fault Bool := do
  let sum ← Word.add (← Word.add r.readErrors r.writeErrors) r.mismatches
  return 0 < sum

def amounts (r : Record) : List (Counter × UInt64) :=
  [(.blocksTouched, r.blocks.toUInt64), (.bytesWritten, r.bytesWritten.toUInt64),
    (.verified, r.verified.toUInt64), (.verifiedDuplicate, r.verifiedDuplicate.toUInt64),
    (.verifiedTrimmed, r.verifiedTrimmed.toUInt64), (.covered, r.newlyCovered.toUInt64),
    (.readErrors, r.readErrors.toUInt64), (.writeErrors, r.writeErrors.toUInt64),
    (.mismatches, r.mismatches.toUInt64)]

/-- The additions to the counters of what was seen, in order; those of zero are left out. -/
def seen (r : Record) : List (Counter × UInt64) :=
  r.amounts.filter (·.2 ≠ 0)

/-- The additions that close the record: the iteration itself, and before it whether it failed. -/
def closing (failed : Bool) : List (Counter × UInt64) :=
  if failed then [(.failedIterations, 1), (.iterations, 1)] else [(.iterations, 1)]

end Record

namespace Stats

def addAll (s : Stats) (additions : List (Counter × UInt64)) : Stats :=
  additions.foldl (fun s (c, v) => s.add c v) s

/-- Adds a record: first what was seen, and then, unless that is too much to add up, the iteration.
The answer is the number of iterations so far, which has to fit a word; the counter wraps. -/
def record (s : Stats) (r : Record) : Stats × Except Fault Nat :=
  let s := s.addAll r.seen
  match r.failed with
  | .error f => (s, .error f)
  | .ok failed => (s.addAll (Record.closing failed), Word.add s.iterations.toNat 1)

end Stats

end Readback
