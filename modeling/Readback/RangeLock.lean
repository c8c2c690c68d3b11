import Readback.RangeLock.Active
import Readback.StateTable

namespace Readback

/-- A range held by one worker, and what the table said about its blocks when it was granted. -/
structure Lease where
  range : BlockRange
  prior : List BlockState
  deriving DecidableEq, Repr

def Lease.anyWritten (l : Lease) : Bool :=
  l.prior.any Option.isSome

/-- Hands out ranges that do not overlap, and keeps the states of the blocks. -/
structure RangeLock where
  nBlocks : Nat
  maxBlocks : Nat
  active : Active
  table : StateTable
  maxBlocks_pos : 0 < maxBlocks
  maxBlocks_le : maxBlocks ≤ nBlocks

namespace RangeLock

inductive Violation
  | pastEnd (range : BlockRange) (last : Nat)
  | stateCount (count : Nat) (range : BlockRange)
  | outside (block : Nat) (range : BlockRange)
  | notActive (range : BlockRange)
  | collision (first second : BlockRange)
  | stillHeld (count : Nat)
  deriving DecidableEq, Repr

def Violation.text : Violation → String
  | pastEnd range last => s!"range {range.text} is past the last block {last}"
  | stateCount count range => s!"{count} states for lease {range.text}"
  | outside block range => s!"verified block {block} outside lease {range.text}"
  | notActive range => s!"release of {range.text} which is not an active lease"
  | collision first second => s!"leases {first.text} and {second.text} overlap"
  | stillHeld count => s!"{count} leases still held after all workers stopped"

def Violation.error (v : Violation) : Error :=
  ⟨.invariant, v.text⟩

/-- No range is longer than `maxBlocks`, nor than the device. -/
def make (nBlocks maxBlocks : Nat) : Except Fault RangeLock :=
  if h : 0 < nBlocks then do
    return {
      nBlocks
      maxBlocks := min (max 1 maxBlocks) nBlocks
      active := []
      table := ← StateTable.make nBlocks
      maxBlocks_pos := by omega
      maxBlocks_le := by omega }
  else .error .assertion

/-- Draws a length, and then a start among those that leave room for it. -/
def candidate (k : RangeLock) (s : Source) : Except Fault (BlockRange × Source) := do
  let some (count, s) := s.between .word64 1 k.maxBlocks | throw .exhausted
  let room ← Word.sub k.nBlocks count
  let some (start, s) := s.between .word64 0 room | throw .exhausted
  return (← BlockRange.ofLength start count, s)

/-- Enters a range as active, and reads the states of its blocks. -/
def grant (k : RangeLock) (r : BlockRange) : Except Fault (Lease × RangeLock) := do
  let prior ← r.blocks.mapM k.table.get
  return (⟨r, prior⟩, { k with active := k.active.insert r })

/-- How many candidates are tried before others get a turn. -/
def attempts : Nat := 8

/-- Tries candidates until one overlaps no active range. -/
def tryCandidates (k : RangeLock) :
    (tries : Nat) → Source → Except Fault (Option (Lease × RangeLock) × Source)
  | 0, s => .ok (none, s)
  | tries + 1, s => do
    let (r, s) ← k.candidate s
    if k.active.overlaps r then k.tryCandidates tries s
    else return (some (← k.grant r), s)

/-- Tries rounds of candidates until a range is granted. -/
def tryRounds (k : RangeLock) : (rounds : Nat) → Source → Except Fault (Lease × RangeLock × Source)
  | 0, _ => .error .exhausted
  | rounds + 1, s => do
    match ← k.tryCandidates attempts s with
    | (some (lease, k), s) => return (lease, k, s)
    | (none, s) => k.tryRounds rounds s

def acquire (k : RangeLock) (s : Source) : Except Fault (Lease × RangeLock × Source) :=
  k.tryRounds (s.supply + 1) s

/-- Claims exactly `r`, unless an active range overlaps it. -/
def claim (k : RangeLock) (r : BlockRange) : Except Failure (Option (Lease × RangeLock)) :=
  if k.nBlocks < r.stop then .error (.error (Violation.pastEnd r (k.nBlocks - 1)).error)
  else if k.active.overlaps r then .ok none
  else ((k.grant r).map some).mapError .fault

def storeStates (t : StateTable) (updates : List (Nat × BlockState)) : Except Fault StateTable :=
  updates.foldlM (fun t (b, s) => t.set b s) t

/-- Marks blocks as covered, and counts those that were not before. -/
def markAll : StateTable → List Nat → Except Fault (Nat × StateTable)
  | t, [] => .ok (0, t)
  | t, b :: rest => do
    let (first, t) ← t.mark b
    let (n, t) ← markAll t rest
    return ((if first then 1 else 0) + n, t)

/-- What forbids the release of a lease with these states and verified blocks. -/
def objection? (k : RangeLock) (range : BlockRange) (length : Nat) (states : List BlockState)
    (verified : List Nat) : Option Violation :=
  if states.length ≠ length then some (.stateCount states.length range)
  else match verified.find? fun b => !range.contains b with
    | some b => some (.outside b range)
    | none =>
      if k.active.startingAt? range.start = some range then none else some (.notActive range)

/-- Gives a lease back: stores the new states of its blocks and marks those that verified as
covered.  The answer is how many of them were not covered before. -/
def release (k : RangeLock) (lease : Lease) (states : List BlockState) (verified : List Nat) :
    Except Failure (Nat × RangeLock) := do
  let range := lease.range
  let length ← range.length.mapError .fault
  match k.objection? range length states verified with
  | some v => throw (.error v.error)
  | none =>
    let table ← (storeStates k.table (range.blocks.zip states)).mapError .fault
    let (newly, table) ← (markAll table verified).mapError .fault
    return (newly, { k with table, active := k.active.erase range.start })

def checkDisjoint (k : RangeLock) : Except Violation Unit :=
  match k.active.collision? with
  | some (a, b) => .error (.collision a b)
  | none => .ok ()

def activeLeases (k : RangeLock) : Except Fault (List BlockRange) :=
  k.active.mapM fun r => BlockRange.make r.start r.stop

def covered (k : RangeLock) : Nat :=
  k.table.coveredCount

end RangeLock

end Readback
