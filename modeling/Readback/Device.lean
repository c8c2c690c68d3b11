import Readback.Bytes
import Readback.Error

namespace Readback

/-- What a worker may ask of the device under test. -/
inductive Request
  | read (offset length : Nat)
  | write (offset : Nat) (data : ByteArray)
  /-- A hint that later reads should come from the device and no cache. -/
  | invalidate (offset length : Nat)
  /-- The range holds no data any more, and must read back as zeroes. -/
  | discard (offset length : Nat)
  /-- Make every completed write durable. -/
  | flush
  deriving DecidableEq

/-- What a request that succeeds is answered with: a read gives exactly the bytes asked for. -/
def Request.Reply : Request → Type
  | .read _ n => { bytes : ByteArray // bytes.size = n }
  | _ => Unit

/-- A device, as a machine with states in `σ` that answers one request at a time. -/
structure Device (σ : Type) where
  size : σ → Except Error Nat
  answer : (r : Request) → σ → Except Failure r.Reply × σ

end Readback
