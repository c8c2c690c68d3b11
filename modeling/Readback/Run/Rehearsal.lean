import Readback.Device.Faulty
import Readback.Run

namespace Readback.Run

/-- What happens during certain writes. -/
structure Incidents where
  /-- During the write with this number the stop flag is raised from outside. -/
  interruptAt : Option Nat
  /-- During the write with this number someone else gives back the range that is written. -/
  stealAt : Option Nat

namespace Incidents

def none : Incidents := ⟨.none, .none⟩

end Incidents

/-- A run without workers.  Its configuration is not checked. -/
def rehearse {σ : Type} (c : Config) (seed : UInt64) (g : Geometry) (d : σ) (start : Instant) :
    Except Fault (Run σ) := do
  let content ← Content.make g.blockSize seed c.mode
  let shared ← sharedFor c g false
  let job ← jobFor c g content start
  return ⟨seed, job, shared, d, #[], [], []⟩

/-- Lets someone else hold a range all along, which must be free. -/
def hold {σ : Type} (r : Run σ) (range : BlockRange) : Except Fault (Run σ) :=
  match r.shared.lock.claim range with
  | .ok (some (_, lock)) => .ok { r with shared := { r.shared with lock } }
  | .error (.fault f) => .error f
  | _ => .error .assertion

/-- Takes a range from whoever holds it, and forgets what its blocks hold. -/
def steal {σ : Type} (l : Lease) (r : Run σ) : Run σ :=
  match r.shared.lock.release l (l.prior.map fun _ => Option.none) [] with
  | .ok (_, lock) => { r with shared := { r.shared with lock } }
  | .error _ => r

/-- What happens as a worker asks for a write, whose number is `n`. -/
def suffer {σ : Type} (s : Incidents) (n : Nat) (l : Lease) (r : Run σ) : Run σ :=
  let r := if s.interruptAt = some n then r.interrupt else r
  if s.stealAt = some n then r.steal l else r

def stepThrough (s : Incidents) (now : Instant) (i : Nat) (r : Run Faulty) : Run Faulty :=
  let r := match r.workers[i]?.map Worker.phase with
    | some (.writing b) => r.suffer s (r.device.count .write) b.lease
    | _ => r
  r.step Faulty.device now i

def takeTurns (s : Incidents) (clock : Nat → Instant) : (rounds : Nat) → Run Faulty → Run Faulty
  | 0, r => r
  | rounds + 1, r =>
    if r.ended then r
    else
      let now := clock rounds
      takeTurns s clock rounds
        (Nat.fold r.workers.size (fun i _ r => r.stepThrough s now i) r)

/-- Sends in one new worker, in place of those before. -/
def send {σ : Type} (id : Nat) (entropy : Source) (r : Run σ) : Except Fault (Run σ) := do
  return { r with workers := #[← Worker.make r.job id entropy] }

end Readback.Run
