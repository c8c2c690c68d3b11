import Readback.ChaCha8
import Readback.Sha512
import Readback.Tag
import Readback.Word

namespace Readback

/-- How seed material is stretched to the length of a block. -/
inductive Mode
  /-- The SHA-512 digest of the material, then of each digest before. -/
  | hash
  /-- The ChaCha8 key stream under a key made from the material. -/
  | fast
  deriving DecidableEq, Repr

def Mode.text : Mode → String
  | hash => "Hash"
  | fast => "Fast"

/-- What every block of a run holds, given its offset and tag. -/
structure Content where
  blockSize : Nat
  seed : UInt64
  mode : Mode
  blockSize_pos : 0 < blockSize
  deriving DecidableEq, Repr

namespace Content

def make (blockSize : Nat) (seed : UInt64) (mode : Mode) : Except Fault Content :=
  if h : 0 < blockSize then .ok ⟨blockSize, seed, mode, h⟩ else .error .assertion

/-- The bytes a block is made from; a trimmed block is made from none. -/
def material (seed : UInt64) (offset : Nat) : Tag → List UInt8
  | .trimmed => []
  | .duplicate => Bytes.bigEndian 8 seed.toNat
  | .unique n =>
    Bytes.bigEndian 8 offset ++ Bytes.bigEndian 8 seed.toNat ++ Bytes.bigEndian 2 n.toNat

/-- The material, zeroes up to 31 bytes, and the length of the material. -/
def key (material : List UInt8) : List UInt8 :=
  material ++ List.replicate (31 - material.length) 0 ++ [UInt8.ofNat material.length]

/-- Writes `count` chunks of 64 bytes from `start` on, cutting the last at the end of `out`. -/
def writeChunks {σ : Type} (chunk : σ → ByteArray × σ) :
    (count start : Nat) → σ → ByteArray → ByteArray
  | 0, _, _, out => out
  | count + 1, start, s, out =>
    let (bytes, s) := chunk s
    writeChunks chunk count (start + 64) s (Bytes.overwrite out start bytes)

def chainChunk (material : ByteArray) : ByteArray × ByteArray :=
  let digest := sha512 material
  (digest, digest)

def streamChunk (key : ChaCha8.Key) (counter : UInt64) : ByteArray × UInt64 :=
  ((ChaCha8.block key counter).toBytes, counter + 1)

/-- Overwrites a buffer with the stretched material. -/
def expand (mode : Mode) (material : List UInt8) (out : ByteArray) : ByteArray :=
  let chunks := (out.size + 63) / 64
  match mode with
  | .hash => writeChunks chainChunk chunks 0 material.toByteArray out
  | .fast =>
    let key := ChaCha8.Key.ofBytes (key material).toByteArray
    writeChunks (streamChunk key) chunks 0 0 out

/-- Overwrites a buffer of one block with the content of the block at `offset`. -/
def fill (c : Content) (offset : Nat) (tag : Tag) (out : ByteArray) : Except Fault ByteArray :=
  if out.size ≠ c.blockSize then .error .assertion
  else match tag with
    | .trimmed => .ok (Bytes.zeroes c.blockSize)
    | tag => .ok (expand c.mode (material c.seed offset tag) out)

def block (c : Content) (offset : Nat) (tag : Tag) : Except Fault ByteArray :=
  if c.blockSize < Bytes.limit then c.fill offset tag (Bytes.zeroes c.blockSize)
  else .error .overflow

/-- What a sample of the content, generated twice, showed to be wrong. -/
inductive Flaw
  | unstable (mode : Mode) (tag : Tag) (offset : Nat)
  | duplicateVaries (far : Nat)
  deriving DecidableEq, Repr

def Flaw.error : Flaw → Error
  | .unstable mode tag offset =>
    ⟨.invariant, s!"{mode.text} content for {tag.text} at offset {offset} is not deterministic"⟩
  | .duplicateVaries far =>
    ⟨.invariant, s!"duplicate content differs between offsets 0 and {far}"⟩

/-- Generates sample blocks twice and compares, and duplicate content at two offsets. -/
def selfCheck (c : Content) : Except Failure Unit := do
  let far ← (Word.mul c.blockSize 7919).mapError .fault
  for tag in [Tag.unique 0x5a5a, .duplicate, .trimmed] do
    for offset in [0, far] do
      let one ← (c.block offset tag).mapError .fault
      let two ← (c.block offset tag).mapError .fault
      if one ≠ two then throw (.error (Flaw.unstable c.mode tag offset).error)
  let near ← (c.block 0 .duplicate).mapError .fault
  let away ← (c.block far .duplicate).mapError .fault
  if near ≠ away then throw (.error (Flaw.duplicateVaries far).error)

end Content

end Readback
