import Readback.Outcome.Verify

namespace Readback

/-- Compares leases with the device, in buffers that it keeps from one lease to the next. -/
structure Verifier where
  content : Content
  geometry : Geometry
  /-- What was last found on the device. -/
  found : ByteArray
  /-- The content of the block that was last compared. -/
  expected : ByteArray

namespace Verifier

def make (c : Content) (g : Geometry) : Except Fault Verifier :=
  if c.blockSize ≠ g.blockSize then .error .assertion
  else if c.blockSize < Bytes.limit then .ok ⟨c, g, .empty, Bytes.zeroes c.blockSize⟩
  else .error .overflow

/-- Compares what was found in the `i`-th place with what was last written to the block there. -/
def judge (v : Verifier) (i block : Nat) : BlockState → Except Fault (Verdict × Verifier)
  | none => .ok (.skipped, v)
  | some tag => do
    let offset ← v.geometry.byteOffset block
    let expected ← v.content.fill offset tag v.expected
    let size := v.content.blockSize
    if v.found.size < (i + 1) * size then throw .outOfBounds
    let actual := Bytes.slice v.found (i * size) size
    return (Outcome.compare block offset tag expected actual, { v with expected })

def judgeAll (v : Verifier) :
    (i : Nat) → List (Nat × BlockState) → Except Fault (List Verdict × Verifier)
  | _, [] => .ok ([], v)
  | i, (block, prior) :: rest => do
    let (verdict, v) ← v.judge i block prior
    let (verdicts, v) ← v.judgeAll (i + 1) rest
    return (verdict :: verdicts, v)

def resize (v : Verifier) (n : Nat) : Verifier :=
  { v with found := Bytes.window v.found 0 n }

/-- The verifier after a read that succeeded. -/
def load (v : Verifier) (bytes : ByteArray) : Verifier :=
  { v with found := Bytes.overwrite v.found 0 bytes }

section Verify

variable {σ : Type} (dev : Device σ) (l : Lease) (v : Verifier) (d : σ)

/-- Reads a lease back and compares it with what was last written to its blocks, as `Outcome.verify`
does, in the buffers of the verifier. -/
def verify : Except Failure Outcome × Verifier × σ :=
  if l.anyWritten then
    match v.geometry.rangeBytes l.range with
    | .error f => (.error (.fault f), v, d)
    | .ok (offset, n) =>
      match dev.answer (.invalidate offset n) d with
      | (.error (.fault f), d) => (.error (.fault f), v, d)
      | (_, d) =>
        let v := v.resize n
        match dev.answer (.read offset n) d with
        | (.error (.fault f), d) => (.error (.fault f), v, d)
        | (.error (.error e), d) => (.ok (.unread l e), v, d)
        | (.ok bytes, d) =>
          let v := v.load bytes.1
          match v.judgeAll 0 (l.range.blocks.zip l.prior) with
          | .error f => (.error (.fault f), v, d)
          | .ok (verdicts, v) => (.ok (.ofVerdicts verdicts), v, d)
  else ((l.range.length.map Outcome.untouched).mapError .fault, v, d)

end Verify

end Verifier

end Readback
