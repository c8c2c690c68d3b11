import Readback.Device.Memory
import Readback.Sha512

namespace Readback

inductive RequestKind
  | read
  | write
  | invalidate
  | discard
  | flush
  deriving DecidableEq, Repr

def RequestKind.text : RequestKind → String
  | read => "read"
  | write => "write"
  | invalidate => "invalidate"
  | discard => "discard"
  | flush => "flush"

def Request.kind : Request → RequestKind
  | .read .. => .read
  | .write .. => .write
  | .invalidate .. => .invalidate
  | .discard .. => .discard
  | .flush => .flush

def Request.text : Request → String
  | .read offset n => s!"read {offset} {n}"
  | .write offset data => s!"write {offset} {data.size} {Bytes.digest data}"
  | .invalidate offset n => s!"invalidate {offset} {n}"
  | .discard offset n => s!"discard {offset} {n}"
  | .flush => "flush"

/-- The requests of one kind with these numbers, counted from zero, fail before they reach the
device; without a kind of error, the device gives way altogether. -/
structure PlannedFault where
  kind : RequestKind
  first : Nat
  past : Nat
  error : Option ErrorKind

def PlannedFault.failure (p : PlannedFault) (i : Nat) : Failure :=
  match p.error with
  | some kind => .error ⟨kind, s!"fault {p.kind.text} {i}"⟩
  | none => .fault .device

/-- The successful reads with these numbers come back with some bits of one byte flipped. -/
structure PlannedFlip where
  first : Nat
  past : Nat
  position : Nat
  mask : UInt8

structure Tally where
  reads : Nat
  writes : Nat
  invalidations : Nat
  discards : Nat
  flushes : Nat
  deriving DecidableEq, Repr

namespace Tally

def zero : Tally := ⟨0, 0, 0, 0, 0⟩

def get (t : Tally) : RequestKind → Nat
  | .read => t.reads
  | .write => t.writes
  | .invalidate => t.invalidations
  | .discard => t.discards
  | .flush => t.flushes

def add (t : Tally) : RequestKind → Tally
  | .read => { t with reads := t.reads + 1 }
  | .write => { t with writes := t.writes + 1 }
  | .invalidate => { t with invalidations := t.invalidations + 1 }
  | .discard => { t with discards := t.discards + 1 }
  | .flush => { t with flushes := t.flushes + 1 }

end Tally

/-- A memory device that misbehaves as planned, and remembers what it was asked, latest first. -/
structure Faulty where
  memory : Memory
  faults : List PlannedFault
  flips : List PlannedFlip
  sizeError : Bool
  asked : List Request
  tally : Tally

namespace Faulty

def count (f : Faulty) (k : RequestKind) : Nat :=
  f.tally.get k

def planned? (f : Faulty) (k : RequestKind) (i : Nat) : Option PlannedFault :=
  f.faults.find? fun p => p.kind = k && p.first ≤ i && i < p.past

def flipAt (mask : UInt8) (i : Nat) (bytes : ByteArray) : ByteArray :=
  if h : i < bytes.size then bytes.set i (bytes[i] ^^^ mask) else bytes

theorem size_flipAt (mask : UInt8) (i : Nat) (bytes : ByteArray) :
    (flipAt mask i bytes).size = bytes.size := by
  unfold flipAt
  split
  · simp only [ByteArray.size, ByteArray.set, Array.size_set]
  · rfl

def flip (flips : List PlannedFlip) (i : Nat) {n : Nat}
    (bytes : { b : ByteArray // b.size = n }) : { b : ByteArray // b.size = n } :=
  flips.foldl (fun b p =>
    if p.first ≤ i ∧ i < p.past then
      ⟨flipAt p.mask (p.position % n) b.1, by rw [size_flipAt, b.2]⟩
    else b) bytes

def answer (f : Faulty) (r : Request) : Except Failure r.Reply × Faulty :=
  let i := f.count r.kind
  let f := { f with asked := r :: f.asked, tally := f.tally.add r.kind }
  match f.planned? r.kind i with
  | some p => (.error (p.failure i), f)
  | none =>
    match r with
    | .read offset n =>
      match f.memory.answer (.read offset n) with
      | (.ok bytes, m) => (.ok (flip f.flips i bytes), { f with memory := m })
      | (.error e, m) => (.error e, { f with memory := m })
    | r =>
      let (reply, m) := f.memory.answer r
      (reply, { f with memory := m })

def device : Device Faulty where
  size f := if f.sizeError then .error ⟨.io, "no size"⟩ else .ok f.memory.size
  answer r f := f.answer r

end Faulty

end Readback
