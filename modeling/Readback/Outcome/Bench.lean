import Readback.Device.Faulty
import Readback.Verifier

namespace Readback

/-- A device with a lock over its blocks, to try out what verification finds. -/
structure Bench where
  device : Faulty
  lock : RangeLock
  verifier : Verifier

namespace Bench

def make (device : Faulty) (g : Geometry) (blockSize : Nat) (seed : UInt64) (mode : Mode) :
    Except Fault Bench := do
  let content ← Content.make blockSize seed mode
  let verifier ← Verifier.make content g
  return ⟨device, ← RangeLock.make g.nBlocks g.nBlocks, verifier⟩

/-- Claims `count` blocks from `start` on, which nobody else may hold. -/
def claim (b : Bench) (start count : Nat) : Except Failure (Lease × RangeLock) := do
  let r ← (BlockRange.ofLength start count).mapError .fault
  let some x ← b.lock.claim r | throw (.fault .assertion)
  return x

/-- Stores the content of the blocks that have a tag, up to the first that is refused. -/
def storeBlocks (b : Bench) (m : Memory) :
    List (Nat × BlockState) → Except Fault (Option Error × Memory)
  | [] => .ok (none, m)
  | (_, none) :: rest => storeBlocks b m rest
  | (block, some tag) :: rest => do
    let offset ← b.verifier.geometry.byteOffset block
    let bytes ← b.verifier.content.block offset tag
    match m.write offset bytes with
    | .error e => return (some e, m)
    | .ok m => storeBlocks b m rest

/-- Records states for the blocks from `start` on.  The answer counts the newly covered. -/
def record (b : Bench) (start : Nat) (states : List BlockState) : Except Failure (Nat × Bench) := do
  let (l, k) ← b.claim start states.length
  let (n, k) ← k.release l states []
  return (n, { b with lock := k })

/-- Records states, and stores the content that goes with them behind the back of the device. -/
def write (b : Bench) (start : Nat) (states : List BlockState) :
    Except Failure (Except Error Nat × Bench) := do
  let (n, b) ← b.record start states
  let blocks := List.range' start states.length
  let (e, memory) ← (b.storeBlocks b.device.memory (blocks.zip states)).mapError .fault
  return (e.elim (.ok n) .error, { b with device := { b.device with memory } })

/-- Reads blocks back, and marks those that verified.  The answer counts the newly covered.  The
device is left as it is also where there is none. -/
def check (b : Bench) (start count : Nat) : Except Failure (Outcome × Nat) × Bench :=
  match b.claim start count with
  | .error e => (.error e, b)
  | .ok (l, k) =>
    let (o, verifier, device) := b.verifier.verify Faulty.device l b.device
    let b := { b with verifier, device }
    match o >>= fun o => (k.release l l.prior o.verifiedBlocks).map (o, ·) with
    | .error e => (.error e, b)
    | .ok (o, (n, lock)) => (.ok (o, n), { b with lock })

end Bench

end Readback
