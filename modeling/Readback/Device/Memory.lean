import Readback.Device
import Readback.Extent
import Readback.Word

namespace Readback

/-- A device in memory, with switches that make its calls fail. -/
structure Memory where
  content : Extent
  failReads : Bool
  failWrites : Bool
  /-- Inverts the first byte of whatever is read. -/
  corruptReads : Bool
  discardUnsupported : Bool
  /-- Requests that succeeded.  The counters wrap around at 64 bits. -/
  flushes : UInt64
  discards : UInt64
  invalidations : UInt64

namespace Memory

def make (size : Nat) : Except Fault Memory :=
  if size < Bytes.limit then
    .ok {
      content := .zeroes size
      failReads := false
      failWrites := false
      corruptReads := false
      discardUnsupported := false
      flushes := 0
      discards := 0
      invalidations := 0 }
  else .error .overflow

def size (m : Memory) : Nat :=
  m.content.size

def bytes (m : Memory) : ByteArray :=
  m.content.toBytes

inductive Switch
  | failReads
  | failWrites
  | corruptReads
  | discardUnsupported
  deriving DecidableEq, Repr

def set (m : Memory) (s : Switch) (on : Bool) : Memory :=
  match s with
  | .failReads => { m with failReads := on }
  | .failWrites => { m with failWrites := on }
  | .corruptReads => { m with corruptReads := on }
  | .discardUnsupported => { m with discardUnsupported := on }

/-- Whether there are `n` bytes from `offset` on.  An end that no word can hold is past them all. -/
def spans (m : Memory) (offset n : Nat) : Bool :=
  match Word.add offset n with
  | .ok stop => stop ≤ m.size
  | .error _ => false

def pastEnd (m : Memory) (offset n : Nat) : Error :=
  ⟨.io, s!"{n} bytes at {offset} is past the end of a {m.size} byte device"⟩

def invertFirst (bytes : ByteArray) : ByteArray :=
  if h : 0 < bytes.size then bytes.set 0 (~~~ bytes[0]) else bytes

theorem size_invertFirst (bytes : ByteArray) : (invertFirst bytes).size = bytes.size := by
  unfold invertFirst
  split
  · simp only [ByteArray.size, ByteArray.set, Array.size_set]
  · rfl

def read (m : Memory) (offset n : Nat) : Except Error { bytes : ByteArray // bytes.size = n } :=
  if m.failReads then .error ⟨.read, s!"injected read error at {offset}"⟩
  else if m.spans offset n then
    let stored := m.content.read offset n
    if m.corruptReads then
      .ok ⟨invertFirst stored, by rw [size_invertFirst, Extent.size_read]⟩
    else .ok ⟨stored, Extent.size_read ..⟩
  else .error ⟨.read, (m.pastEnd offset n).message⟩

def write (m : Memory) (offset : Nat) (data : ByteArray) : Except Error Memory :=
  if m.failWrites then .error ⟨.write, s!"injected write error at {offset}"⟩
  else if m.spans offset data.size then
    .ok { m with content := m.content.write offset data }
  else .error ⟨.write, (m.pastEnd offset data.size).message⟩

def invalidate (m : Memory) (offset n : Nat) : Except Error Memory :=
  if m.spans offset n then .ok { m with invalidations := m.invalidations + 1 }
  else .error (m.pastEnd offset n)

def discard (m : Memory) (offset n : Nat) : Except Error Memory :=
  if m.discardUnsupported then .error ⟨.unsupported, "discard disabled on this device"⟩
  else if m.spans offset n then
    .ok { m with content := m.content.clear offset n, discards := m.discards + 1 }
  else .error (m.pastEnd offset n)

def flush (m : Memory) : Except Error Memory :=
  if m.failWrites then .error ⟨.write, "injected flush error"⟩
  else .ok { m with flushes := m.flushes + 1 }

def invert (bytes : ByteArray) : ByteArray :=
  ⟨bytes.data.map (~~~ ·)⟩

def corrupt (m : Memory) (offset n : Nat) : Except Fault Memory := do
  let stop ← Word.add offset n
  if stop ≤ m.size then
    .ok { m with content := m.content.write offset (invert (m.content.read offset n)) }
  else .error .outOfBounds

/-- What is left of an update that failed is what was there before. -/
def orKeep (m : Memory) : Except Error Memory → Except Failure Unit × Memory
  | .ok m => (.ok (), m)
  | .error e => (.error (.error e), m)

def answer (m : Memory) : (r : Request) → Except Failure r.Reply × Memory
  | .read offset n => ((m.read offset n).mapError .error, m)
  | .write offset data => m.orKeep (m.write offset data)
  | .invalidate offset n => m.orKeep (m.invalidate offset n)
  | .discard offset n => m.orKeep (m.discard offset n)
  | .flush => m.orKeep m.flush

def device : Device Memory where
  size m := .ok m.size
  answer r m := m.answer r

end Memory

end Readback
